import Mathlib
import Typings.Proofs.Model.Representation
import Typings.Proofs.Type.Replacement

/-!
# Rewrites of types that commute

Dates, inlined enums and the bases of unions are replaced by three rewrites of types. Each replaces
some leaves and rebuilds the rest, and the replacements are rebuilt nodes themselves. Two rewrites
commute if they replace different leaves and neither puts in what the other one replaces. This is so
for these three if the symbols that they look for and the symbols that they put in are kept apart.

## Main definitions

* `TypeExpr.LeafRule`, `TypeExpr.LeafRule.rewrite`: which leaves are replaced, and the rewrite of a
  type.
* `TypeExpr.LeafRule.Spares`: what one rule puts in is left alone by another one.
* `TypeExpr.representations`: the three rewrites.

## Main results

* `TypeExpr.LeafRule.Spares.rewrite_rewrite`: a rewrite that spares itself is idempotent.
* `TypeExpr.LeafRule.Spares.commute`: rewrites that spare each other commute if they replace
  different leaves.
* `TypeExpr.representations_commute`: the three rewrites are idempotent and commute.
-/

namespace Typings.TypeExpr

/-! ## Rules for leaves -/

/-- A rule that replaces leaves. -/
structure LeafRule where
  replace? : TypeExpr → Option TypeExpr
  parts_eq_nil : ∀ t u, replace? t = some u → t.parts = []

namespace LeafRule

variable {rule other : LeafRule} {t u : TypeExpr}

/-- Rebuilds a type with its leaves replaced by a rule. -/
def rewrite (rule : LeafRule) : TypeExpr → TypeExpr :=
  transform fun t => (rule.replace? t).getD t

theorem rewrite_of_some (h : rule.replace? t = some u) : rule.rewrite t = u := by
  rw [rewrite, transform_eq, mapParts_eq_self (rule.parts_eq_nil t u h), h, Option.getD_some]

/-- Changing the parts of a node does not make it a leaf that is replaced. -/
theorem replace?_mapParts (h : rule.replace? t = none) (g : TypeExpr → TypeExpr) :
    rule.replace? (t.mapParts g) = none := by
  have hnone : ∀ u, rule.replace? t ≠ some u := by simp [h]
  exact Option.eq_none_iff_forall_ne_some.mpr (not_rule_mapParts rule.parts_eq_nil hnone g)

theorem rewrite_of_none (h : rule.replace? t = none) :
    rule.rewrite t = t.mapParts rule.rewrite := by
  rw [rewrite, transform_eq, replace?_mapParts h, Option.getD_none]

theorem rewrite_eq_self (h : ∀ n ∈ t.nodes, rule.replace? n = none) : rule.rewrite t = t := by
  refine transform_eq_self t fun n hn => ?_
  rw [h n hn, Option.getD_none]

/-- Whether what the first rule puts in is left alone by the second one. -/
def Spares (rule other : LeafRule) : Prop :=
  ∀ t u, rule.replace? t = some u → ∀ n ∈ u.nodes, other.replace? n = none

/-- A rewrite that leaves alone what it puts in is idempotent. -/
theorem Spares.rewrite_rewrite (h : rule.Spares rule) (t : TypeExpr) :
    rule.rewrite (rule.rewrite t) = rule.rewrite t := by
  induction t using partsInduction with
  | step t ih =>
    cases hrule : rule.replace? t with
    | some u => rw [rewrite_of_some hrule, rewrite_eq_self (h t u hrule)]
    | none =>
      rw [rewrite_of_none hrule, rewrite_of_none (replace?_mapParts hrule _), mapParts_mapParts]
      exact mapParts_congr ih

/-- Where one rule replaces a leaf and the other one does not, the order does not matter. -/
theorem Spares.rewrite_comm (h : rule.Spares other) (hrule : rule.replace? t = some u)
    (hother : other.replace? t = none) :
    rule.rewrite (other.rewrite t) = other.rewrite (rule.rewrite t) := by
  rw [rewrite_of_none hother, mapParts_eq_self (rule.parts_eq_nil t u hrule), rewrite_of_some hrule,
    rewrite_eq_self (h t u hrule)]

/-- Rewrites commute that replace different leaves and leave alone what the other one puts in. -/
theorem Spares.commute (h : rule.Spares other) (h' : other.Spares rule)
    (hdifferent : ∀ t, rule.replace? t = none ∨ other.replace? t = none) :
    Function.Commute rule.rewrite other.rewrite := by
  intro t
  induction t using partsInduction with
  | step t ih =>
    cases hrule : rule.replace? t with
    | some u =>
      have hother := (hdifferent t).resolve_left (by simp [hrule])
      exact h.rewrite_comm hrule hother
    | none =>
      cases hother : other.replace? t with
      | some u => exact (h'.rewrite_comm hother hrule).symm
      | none =>
        rw [rewrite_of_none hrule, rewrite_of_none hother,
          rewrite_of_none (replace?_mapParts hrule _), rewrite_of_none (replace?_mapParts hother _),
          mapParts_mapParts, mapParts_mapParts]
        exact mapParts_congr ih

/-- Rewrites that leave alone what they put in, and replace different leaves, are idempotent and
commute. -/
theorem pairwise_commute {rules : List LeafRule}
    (hspares : ∀ rule ∈ rules, ∀ other ∈ rules, rule.Spares other)
    (hdifferent : rules.Pairwise fun rule other => ∀ t, rule.replace? t = none ∨
      other.replace? t = none) :
    (rules.map rewrite).Pairwise Function.Commute ∧
      ∀ f ∈ rules.map rewrite, ∀ t, f (f t) = f t := by
  constructor
  · rw [List.pairwise_map]
    refine hdifferent.imp_of_mem fun {rule other} hrule hother h => ?_
    exact (hspares rule hrule other hother).commute (hspares other hother rule hrule) h
  · intro f hf t
    obtain ⟨rule, hrule, rfl⟩ := List.mem_map.mp hf
    exact (hspares rule hrule rule hrule).rewrite_rewrite t

/-! ## Dates and references -/

/-- The rule that replaces dates by a reference. -/
def dates (symbol : Symbol) : LeafRule where
  replace? t := if t.isTemporal then some (bare symbol) else none
  parts_eq_nil t u h := by
    split at h
    case isTrue hdate => rw [isTemporal_iff.mp hdate]; rfl
    case isFalse => cases h

/-- The rule that replaces references without type arguments. -/
def references (substitution : Symbol → Option TypeExpr) : LeafRule where
  replace? t := t.bareSymbol?.bind substitution
  parts_eq_nil t u h := by
    obtain ⟨s, hs, -⟩ := Option.bind_eq_some_iff.mp h
    rw [eq_bare_of_bareSymbol? hs]
    rfl

/-- Dates are replaced by this rule; for references, the same holds by definition. -/
theorem rewrite_dates (symbol : Symbol) :
    (dates symbol).rewrite = transform fun t => if t.isTemporal then bare symbol else t := by
  unfold rewrite dates
  congr 1
  funext t
  dsimp only
  split <;> rfl

theorem spares_of_references {substitution : Symbol → Option TypeExpr} {other : LeafRule}
    (h : ∀ s u, substitution s = some u → ∀ n ∈ u.nodes, other.replace? n = none) :
    (references substitution).Spares other := by
  intro t u hu
  obtain ⟨s, -, hs⟩ := Option.bind_eq_some_iff.mp hu
  exact h s u hs

theorem spares_of_dates {symbol : Symbol} (h : other.replace? (bare symbol) = none) :
    (dates symbol).Spares other := by
  intro t u hu
  change (if t.isTemporal then some (bare symbol) else none) = some u at hu
  split at hu
  case isTrue =>
    obtain rfl := Option.some.inj hu
    simpa [nodes] using h
  case isFalse => cases hu

/-- Dates are no references. -/
theorem dates_or_references (symbol : Symbol) (substitution : Symbol → Option TypeExpr)
    (t : TypeExpr) :
    (dates symbol).replace? t = none ∨ (references substitution).replace? t = none := by
  cases hdate : t.isTemporal with
  | false => exact .inl (by simp [dates, hdate])
  | true =>
    rw [isTemporal_iff.mp hdate]
    exact .inr rfl

theorem references_or_references {substitution substitution' : Symbol → Option TypeExpr}
    (h : ∀ s, substitution s = none ∨ substitution' s = none) (t : TypeExpr) :
    (references substitution).replace? t = none ∨ (references substitution').replace? t = none := by
  unfold references
  dsimp only
  cases t.bareSymbol? with
  | none => exact .inl rfl
  | some s => exact h s

end LeafRule

/-! ## The representations -/

/-- Whether a type is a literal or a union of literals. -/
inductive OfLiterals : TypeExpr → Prop
  | single (value : Literal) : OfLiterals (literal value)
  | union (values : List Literal) : OfLiterals (union (values.map literal))

/-- There are neither dates nor references among literals. -/
theorem OfLiterals.forall_nodes {t : TypeExpr} (h : t.OfLiterals) :
    ∀ n ∈ t.nodes, n.isTemporal = false ∧ n.bareSymbol? = none := by
  have hliteral : ∀ value, ∀ n ∈ (literal value).nodes, n.isTemporal = false ∧
      n.bareSymbol? = none := by
    simp [nodes, isTemporal, bareSymbol?]
  cases h with
  | single value => exact hliteral value
  | union values =>
    rw [nodes_eq, List.forall_mem_cons]
    refine ⟨⟨rfl, rfl⟩, fun n hn => ?_⟩
    obtain ⟨p, hp, hn⟩ := List.mem_flatMap.mp hn
    obtain ⟨value, -, rfl⟩ := List.mem_map.mp hp
    exact hliteral value n hn

/-- The rewrites of types that represent dates, inline enums and use unions. -/
def representations (date : Symbol) (enums : Symbol → Option TypeExpr)
    (unions : Symbol → Option Symbol) : List (TypeExpr → TypeExpr) :=
  [transform fun t => if t.isTemporal then bare date else t, replaceBare enums,
    replaceBare fun s => (unions s).map bare]

/-- Whether the alias for dates, the enums, the bases and the aliases of unions are different
symbols. -/
def KeptApart (date : Symbol) (enums : Symbol → Option TypeExpr) (unions : Symbol → Option Symbol) :
    Prop :=
  [{date}, {s | (enums s).isSome}, {s | (unions s).isSome},
    {s | ∃ base, unions base = some s}].Pairwise Disjoint

section Representations

variable {date : Symbol} {enums : Symbol → Option TypeExpr} {unions : Symbol → Option Symbol}

/-- What a representation looks for is not what one puts in. -/
theorem KeptApart.eq_none (h : KeptApart date enums unions) :
    enums date = none ∧ unions date = none ∧ (∀ s, enums s = none ∨ unions s = none) ∧
      ∀ base s, unions base = some s → enums s = none ∧ unions s = none := by
  simp only [KeptApart, List.pairwise_cons, List.mem_cons, List.not_mem_nil, or_false,
    forall_eq_or_imp, forall_eq, Set.disjoint_left, Set.mem_ofPred_eq,
    Option.not_isSome_iff_eq_none] at h
  obtain ⟨⟨hdateEnum, hdateBase, -⟩, ⟨henumBase, henumAlias⟩, hbaseAlias, -⟩ := h
  refine ⟨hdateEnum rfl, hdateBase rfl, fun s => ?_, fun base s hs => ⟨?_, ?_⟩⟩
  · cases henum : enums s with
    | none => exact .inl rfl
    | some t => exact .inr (henumBase (by rw [henum, Option.isSome_some]))
  · exact Option.not_isSome_iff_eq_none.mp fun henum => henumAlias henum ⟨base, hs⟩
  · exact Option.not_isSome_iff_eq_none.mp fun hbase => hbaseAlias hbase ⟨base, hs⟩

namespace LeafRule

theorem spares_of_literals (hliterals : ∀ s t, enums s = some t → t.OfLiterals) (symbol : Symbol)
    (substitution : Symbol → Option TypeExpr) :
    (references enums).Spares (dates symbol) ∧
      (references enums).Spares (references substitution) := by
  refine ⟨spares_of_references fun s t ht n hn => ?_, spares_of_references fun s t ht n hn => ?_⟩
  · simp [dates, ((hliterals s t ht).forall_nodes n hn).1]
  · simp [references, ((hliterals s t ht).forall_nodes n hn).2]

theorem spares_of_aliases {other : LeafRule}
    (h : ∀ base s, unions base = some s → other.replace? (bare s) = none) :
    (references fun s => (unions s).map bare).Spares other := by
  refine spares_of_references fun base t ht => ?_
  obtain ⟨s, hs, rfl⟩ := Option.map_eq_some_iff.mp ht
  simpa [nodes] using h base s hs

end LeafRule

/-- The rewrites of types by which dates are represented, enums are inlined and unions are used
commute with each other, and each is idempotent, if enums are literals and the symbols are kept
apart. -/
theorem representations_commute (hliterals : ∀ s t, enums s = some t → t.OfLiterals)
    (hapart : KeptApart date enums unions) :
    (representations date enums unions).Pairwise Function.Commute ∧
      ∀ rewrite ∈ representations date enums unions, ∀ t, rewrite (rewrite t) = rewrite t := by
  obtain ⟨hdateEnum, hdateBase, hdifferent, halias⟩ := hapart.eq_none
  let dated := LeafRule.dates date
  let inlined := LeafRule.references enums
  let united := LeafRule.references fun s => (unions s).map bare
  have hrewrites : representations date enums unions =
      [dated, inlined, united].map LeafRule.rewrite := by
    rw [List.map_cons, LeafRule.rewrite_dates]
    rfl
  rw [hrewrites]
  refine LeafRule.pairwise_commute ?_ ?_
  · simp only [List.forall_mem_cons, List.not_mem_nil, false_imp_iff, implies_true, and_true]
    refine ⟨⟨?_, ?_, ?_⟩, ⟨?_, ?_, ?_⟩, ?_, ?_, ?_⟩
    · exact LeafRule.spares_of_dates rfl
    · exact LeafRule.spares_of_dates hdateEnum
    · exact LeafRule.spares_of_dates (congrArg (Option.map bare) hdateBase)
    · exact (LeafRule.spares_of_literals hliterals date enums).1
    · exact (LeafRule.spares_of_literals hliterals date enums).2
    · exact (LeafRule.spares_of_literals hliterals date _).2
    · exact LeafRule.spares_of_aliases fun _ _ _ => rfl
    · exact LeafRule.spares_of_aliases fun base s hs => (halias base s hs).1
    · exact LeafRule.spares_of_aliases fun base s hs =>
        congrArg (Option.map bare) (halias base s hs).2
  · have hsymbols : ∀ s, enums s = none ∨ (unions s).map bare = none := by simpa using hdifferent
    simp only [List.pairwise_cons, List.forall_mem_cons, List.not_mem_nil, false_imp_iff,
      implies_true, List.Pairwise.nil, and_true]
    exact ⟨⟨LeafRule.dates_or_references _ _, LeafRule.dates_or_references _ _⟩,
      LeafRule.references_or_references hsymbols⟩

/-- The hypotheses hold for a date alias, an enum and a base with its alias. -/
theorem representations_commute_distinct :
    let enums : Symbol → Option TypeExpr :=
      fun s => if s = ⟨1⟩ then some (literalUnion ["a", "b"]) else none
    let unions : Symbol → Option Symbol := fun s => if s = ⟨2⟩ then some ⟨3⟩ else none
    (∀ s t, enums s = some t → t.OfLiterals) ∧ KeptApart ⟨0⟩ enums unions ∧
      (representations ⟨0⟩ enums unions).Pairwise Function.Commute ∧
        ∀ rewrite ∈ representations ⟨0⟩ enums unions, ∀ t, rewrite (rewrite t) = rewrite t := by
  intro enums unions
  have hliterals : ∀ s t, enums s = some t → t.OfLiterals := by
    intro s t ht
    simp only [enums, Option.ite_none_right_eq_some, Option.some.injEq] at ht
    rw [← ht.2]
    exact .union [.text "a", .text "b"]
  have hapart : KeptApart ⟨0⟩ enums unions := by
    simp [KeptApart, enums, unions]
  exact ⟨hliterals, hapart, representations_commute hliterals hapart⟩

end Representations

end Typings.TypeExpr
