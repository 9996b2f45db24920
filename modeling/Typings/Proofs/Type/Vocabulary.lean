import Mathlib.Data.List.Basic
import Typings.Model.OptionalForms

/-!
# Vocabularies of types

What a type refers to is decided by its nodes: references with a number of arguments, variables and
built-in types. A vocabulary says which of these may occur, and a type is within a vocabulary if all
of its nodes are. Closed references, scoped variables and chosen representations are all statements
of this kind, so what the changes of a type do to its nodes is settled here once.

## Main definitions

* `TypeExpr.parts`, `TypeExpr.mapParts`: the direct parts of a type, and their replacement.
* `TypeExpr.vars`: the variables of a type.
* `Vocabulary`, `TypeExpr.Within`: which nodes may occur, and the types made of such nodes only.

## Main results

* `TypeExpr.partsInduction`: induction over the parts of a type.
* `TypeExpr.transform_eq`: a rebuilt type is made of its rebuilt parts.
* `TypeExpr.Within.transform`, `TypeExpr.Within.replaceBare`: rebuilding within vocabularies.
-/

namespace Typings

namespace TypeExpr

/-! ## Parts -/

/-- The types that a type is directly made of. -/
def parts : TypeExpr → List TypeExpr
  | reference _ args => args
  | union members => members
  | intersection members => members
  | optional inner => [inner]
  | array element => [element]
  | indexed key value => [key, value]
  | shape fields => fields.map (·.2)
  | function params result => params.map (·.2) ++ [result]
  | literal _ | var _ | primitive _ | verbatim _ | any => []

theorem nodes_eq (t : TypeExpr) : t.nodes = t :: t.parts.flatMap nodes := by
  cases t <;> simp [nodes, parts, List.flatMap_map]

/-- What holds of all nodes holds of the type itself and of all nodes of its parts. -/
theorem forall_mem_nodes {P : TypeExpr → Prop} {t : TypeExpr} :
    (∀ n ∈ t.nodes, P n) ↔ P t ∧ ∀ p ∈ t.parts, ∀ n ∈ p.nodes, P n := by
  rw [nodes_eq, List.forall_mem_cons, List.forall_mem_flatMap]

theorem self_mem_nodes (t : TypeExpr) : t ∈ t.nodes := by
  rw [nodes_eq]
  exact List.mem_cons_self

theorem sizeOf_lt_of_mem_parts {t p : TypeExpr} (h : p ∈ t.parts) : sizeOf p < sizeOf t := by
  have hfield : ∀ {fields : List (String × TypeExpr)}, p ∈ fields.map (·.2) →
      sizeOf p < sizeOf fields := by
    intro fields hmem
    obtain ⟨⟨name, q⟩, hfield, rfl⟩ := List.mem_map.mp hmem
    have hlt := List.sizeOf_lt_of_mem hfield
    simp only [Prod.mk.sizeOf_spec] at hlt ⊢
    omega
  cases t with
  | reference _ types | union types | intersection types =>
    have hlt : sizeOf p < sizeOf types := List.sizeOf_lt_of_mem h
    simp only [reference.sizeOf_spec, union.sizeOf_spec, intersection.sizeOf_spec]
    omega
  | shape fields =>
    have hlt := hfield h
    simp only [shape.sizeOf_spec]
    omega
  | function params result =>
    simp only [function.sizeOf_spec]
    rcases List.mem_append.mp h with hparam | hresult
    · have hlt := hfield hparam
      omega
    · rw [List.mem_singleton.mp hresult]
      omega
  | optional _ | array _ | indexed _ _ =>
    simp only [parts, List.mem_cons, List.not_mem_nil, or_false] at h
    rcases h with rfl | rfl <;> simp <;> omega
  | literal _ | var _ | primitive _ | verbatim _ | any => simp [parts] at h

/-- What holds of a type whenever it holds of its parts holds of every type. -/
@[elab_as_elim]
theorem partsInduction {motive : TypeExpr → Prop}
    (step : ∀ t : TypeExpr, (∀ p ∈ t.parts, motive p) → motive t) (t : TypeExpr) : motive t :=
  step t fun p _ => partsInduction step p
termination_by sizeOf t
decreasing_by exact sizeOf_lt_of_mem_parts ‹_›

/-- Replaces the direct parts of a type. -/
def mapParts (f : TypeExpr → TypeExpr) : TypeExpr → TypeExpr
  | reference symbol args => reference symbol (args.map f)
  | union members => union (members.map f)
  | intersection members => intersection (members.map f)
  | optional inner => optional (f inner)
  | array element => array (f element)
  | indexed key value => indexed (f key) (f value)
  | shape fields => shape (fields.map fun field => (field.1, f field.2))
  | function params result => function (params.map fun param => (param.1, f param.2)) (f result)
  | t => t

theorem parts_mapParts (f : TypeExpr → TypeExpr) (t : TypeExpr) :
    (t.mapParts f).parts = t.parts.map f := by
  cases t <;> simp [parts, mapParts]

theorem mapParts_mapParts (h k : TypeExpr → TypeExpr) (t : TypeExpr) :
    (t.mapParts h).mapParts k = t.mapParts (k ∘ h) := by
  cases t <;> simp [mapParts]

theorem mapParts_congr {h k : TypeExpr → TypeExpr} {t : TypeExpr} (heq : ∀ p ∈ t.parts, h p = k p) :
    t.mapParts h = t.mapParts k := by
  have hfields : ∀ fields : List (String × TypeExpr), (∀ p ∈ fields.map (·.2), h p = k p) →
      (fields.map fun field => (field.1, h field.2)) =
        fields.map fun field => (field.1, k field.2) :=
    fun fields heq => List.map_congr_left fun field hfield => by
      rw [heq _ (List.mem_map_of_mem hfield)]
  cases t with
  | shape fields => exact congrArg shape (hfields fields heq)
  | function params result =>
    obtain ⟨hparams, hresult⟩ := List.forall_mem_append.mp heq
    rw [mapParts, mapParts, hfields params hparams, hresult result (List.mem_singleton_self _)]
  | _ => simp_all [mapParts, parts]

/-- A rebuilt type is made of its rebuilt parts. -/
theorem transform_eq (f : TypeExpr → TypeExpr) (t : TypeExpr) :
    t.transform f = f (t.mapParts (transform f)) := by
  cases t <;> simp [transform, mapParts]

/-- Rebuilding with a function that fixes all nodes changes nothing. -/
theorem transform_eq_self {f : TypeExpr → TypeExpr} (t : TypeExpr) (h : ∀ n ∈ t.nodes, f n = n) :
    t.transform f = t := by
  induction t using partsInduction with
  | step t ih =>
    have hparts : ∀ p ∈ t.parts, p.transform f = id p := by
      intro p hp
      apply ih p hp
      intro n hn
      apply h
      rw [nodes_eq]
      exact List.mem_cons_of_mem _ (List.mem_flatMap.mpr ⟨p, hp, hn⟩)
    have hmapped : t.mapParts id = t := by cases t <;> simp [mapParts]
    rw [transform_eq, mapParts_congr hparts, hmapped]
    exact h t t.self_mem_nodes

/-! ## Variables -/

/-- The variable that a type is. -/
def var? : TypeExpr → Option String
  | var name => some name
  | _ => none

/-- The variables of a type, in the order of its text. -/
def vars (t : TypeExpr) : List String :=
  t.nodes.filterMap var?

end TypeExpr

/-! ## Vocabularies -/

/-- Which references, by their number of arguments, which variables and which built-in types may
occur. -/
structure Vocabulary where
  symbol : Symbol → Nat → Prop := fun _ _ => True
  var : String → Prop := fun _ => True
  primitive : Primitive → Prop := fun _ => True

namespace Vocabulary

/-- Whether a node may occur, whatever its parts are. -/
def Admits (voc : Vocabulary) : TypeExpr → Prop
  | .reference symbol args => voc.symbol symbol args.length
  | .var name => voc.var name
  | .primitive kind => voc.primitive kind
  | _ => True

/-- The vocabulary with further variables. -/
def binding (voc : Vocabulary) (names : List String) : Vocabulary :=
  { voc with var := fun name => voc.var name ∨ name ∈ names }

@[simp] theorem binding_symbol (voc : Vocabulary) (names : List String) :
    (voc.binding names).symbol = voc.symbol := rfl

@[simp] theorem binding_var {voc : Vocabulary} {names : List String} {name : String} :
    (voc.binding names).var name ↔ voc.var name ∨ name ∈ names := Iff.rfl

@[simp] theorem binding_primitive (voc : Vocabulary) (names : List String) :
    (voc.binding names).primitive = voc.primitive := rfl

/-- Everything that may occur by one vocabulary may occur by another one. -/
structure Le (voc voc' : Vocabulary) : Prop where
  symbol : ∀ s n, voc.symbol s n → voc'.symbol s n
  var : ∀ v, voc.var v → voc'.var v
  primitive : ∀ k, voc.primitive k → voc'.primitive k

theorem Le.refl (voc : Vocabulary) : voc.Le voc where
  symbol _ _ h := h
  var _ h := h
  primitive _ h := h

theorem Le.admits {voc voc' : Vocabulary} (h : voc.Le voc') {t : TypeExpr} (ht : voc.Admits t) :
    voc'.Admits t := by
  cases t with
  | reference s args => exact h.symbol s _ ht
  | var v => exact h.var v ht
  | primitive k => exact h.primitive k ht
  | _ => trivial

theorem le_binding (voc : Vocabulary) (names : List String) : voc.Le (voc.binding names) where
  symbol _ _ h := h
  var _ h := Or.inl h
  primitive _ h := h

theorem binding_nil_le (voc : Vocabulary) : (voc.binding []).Le voc where
  symbol _ _ h := h
  var _ h := h.resolve_right List.not_mem_nil
  primitive _ h := h

theorem Le.binding {voc voc' : Vocabulary} (h : voc.Le voc') (names : List String) :
    (voc.binding names).Le (voc'.binding names) where
  symbol := h.symbol
  var v hv := hv.imp_left (h.var v)
  primitive := h.primitive

theorem admits_mapParts {voc : Vocabulary} {f : TypeExpr → TypeExpr} {t : TypeExpr} :
    voc.Admits (t.mapParts f) ↔ voc.Admits t := by
  cases t <;> simp [TypeExpr.mapParts, Admits]

end Vocabulary

namespace TypeExpr

variable {voc voc' : Vocabulary} {t : TypeExpr}

/-- Whether only what the vocabulary has occurs in a type. -/
def Within (voc : Vocabulary) (t : TypeExpr) : Prop :=
  ∀ n ∈ t.nodes, voc.Admits n

theorem within_iff : t.Within voc ↔ voc.Admits t ∧ ∀ p ∈ t.parts, p.Within voc :=
  forall_mem_nodes

theorem Within.mono (h : t.Within voc) (hle : voc.Le voc') : t.Within voc' :=
  fun n hn => hle.admits (h n hn)

section Constructors

@[simp] theorem within_reference {s : Symbol} {args : List TypeExpr} :
    (reference s args).Within voc ↔ voc.symbol s args.length ∧ ∀ a ∈ args, a.Within voc :=
  within_iff

@[simp] theorem within_union {members : List TypeExpr} :
    (union members).Within voc ↔ ∀ m ∈ members, m.Within voc := by
  rw [within_iff]
  exact and_iff_right trivial

@[simp] theorem within_intersection {members : List TypeExpr} :
    (intersection members).Within voc ↔ ∀ m ∈ members, m.Within voc := by
  rw [within_iff]
  exact and_iff_right trivial

@[simp] theorem within_optional : (optional t).Within voc ↔ t.Within voc := by
  rw [within_iff]
  simp [Vocabulary.Admits, parts]

@[simp] theorem within_array : (array t).Within voc ↔ t.Within voc := by
  rw [within_iff]
  simp [Vocabulary.Admits, parts]

@[simp] theorem within_indexed {key value : TypeExpr} :
    (indexed key value).Within voc ↔ key.Within voc ∧ value.Within voc := by
  rw [within_iff]
  simp [Vocabulary.Admits, parts]

@[simp] theorem within_shape {fields : List (String × TypeExpr)} :
    (shape fields).Within voc ↔ ∀ f ∈ fields, f.2.Within voc := by
  rw [within_iff]
  simp only [Vocabulary.Admits, parts, List.forall_mem_map, true_and]

@[simp] theorem within_function {params : List (String × TypeExpr)} {result : TypeExpr} :
    (function params result).Within voc ↔
      (∀ p ∈ params, p.2.Within voc) ∧ result.Within voc := by
  rw [within_iff]
  simp only [Vocabulary.Admits, parts, List.forall_mem_append, List.forall_mem_map,
    List.forall_mem_singleton, true_and]

@[simp] theorem within_literal {value : Literal} : (literal value).Within voc := by
  rw [within_iff]
  simp [Vocabulary.Admits, parts]

@[simp] theorem within_var {name : String} : (var name).Within voc ↔ voc.var name := by
  rw [within_iff]
  simp [Vocabulary.Admits, parts]

@[simp] theorem within_primitive {kind : Primitive} :
    (primitive kind).Within voc ↔ voc.primitive kind := by
  rw [within_iff]
  simp [Vocabulary.Admits, parts]

@[simp] theorem within_verbatim {text : String} : (verbatim text).Within voc := by
  rw [within_iff]
  simp [Vocabulary.Admits, parts]

@[simp] theorem within_any : any.Within voc := by
  rw [within_iff]
  simp [Vocabulary.Admits, parts]

@[simp] theorem within_orAbsent : t.orAbsent.Within voc ↔ t.Within voc := by
  unfold orAbsent
  split
  · exact Iff.rfl
  · exact within_optional

theorem Within.literalUnion (values : List String) : (literalUnion values).Within voc := by
  unfold TypeExpr.literalUnion
  split <;> simp

end Constructors

/-! ## Rebuilding -/

/-- Rebuilding leads from one vocabulary to another one if it does so at every node whose parts are
rebuilt already. -/
theorem Within.transform {f : TypeExpr → TypeExpr} (h : t.Within voc)
    (step : ∀ n : TypeExpr, voc.Admits n → (∀ p ∈ n.parts, p.Within voc') → (f n).Within voc') :
    (t.transform f).Within voc' := by
  induction t using partsInduction with
  | step t ih =>
    obtain ⟨hroot, hparts⟩ := within_iff.mp h
    rw [transform_eq]
    refine step _ (Vocabulary.admits_mapParts.mpr hroot) fun p hp => ?_
    rw [parts_mapParts] at hp
    obtain ⟨q, hq, rfl⟩ := List.mem_map.mp hp
    exact ih q hq (hparts q hq)

theorem Within.replaceBare {substitution : Symbol → Option TypeExpr} (h : t.Within voc)
    (hnew : ∀ s r, substitution s = some r → r.Within voc')
    (hold : ∀ n : TypeExpr, n.bareSymbol?.bind substitution = none → voc.Admits n → voc'.Admits n) :
    (t.replaceBare substitution).Within voc' := by
  refine h.transform fun n hn hparts => ?_
  cases hsub : n.bareSymbol?.bind substitution with
  | none => exact within_iff.mpr ⟨hold n hsub hn, hparts⟩
  | some r =>
    obtain ⟨s, -, hs⟩ := Option.bind_eq_some_iff.mp hsub
    exact hnew s r hs

/-- Replacing references by types of the same vocabulary does not leave it. -/
theorem Within.replaceBare_self {substitution : Symbol → Option TypeExpr} (h : t.Within voc)
    (hnew : ∀ s r, substitution s = some r → r.Within voc) :
    (t.replaceBare substitution).Within voc :=
  h.replaceBare hnew fun _ _ hn => hn

theorem Within.withMembers {kinds : List Primitive} (h : t.Within voc)
    (hkinds : ∀ k ∈ kinds, voc.primitive k) : (t.withMembers kinds).Within voc := by
  have hmembers : ∀ m ∈ t.members, m.Within voc := by
    unfold members
    split
    · exact within_union.mp h
    · simpa using h
  rw [TypeExpr.withMembers, within_union]
  generalize t.members = members at hmembers
  induction kinds generalizing members with
  | nil => exact hmembers
  | cons kind rest ih =>
    rw [List.foldl_cons]
    refine ih (fun k hk => hkinds k (List.mem_cons_of_mem _ hk)) _ ?_
    split
    · exact hmembers
    · have hkind : voc.primitive kind := hkinds kind (by simp)
      simpa [or_imp, forall_and] using ⟨hmembers, hkind⟩

theorem Within.optionalForm {form : OptionalForm} (h : t.Within voc)
    (hnull : voc.primitive .null) (hundefined : voc.primitive .undefined) :
    (form.apply t).Within voc := by
  unfold OptionalForm.apply
  split
  · rw [within_optional] at h
    split
    · exact within_orAbsent.mpr h
    · exact h.withMembers (by simpa using hnull)
    · exact within_orAbsent.mpr (h.withMembers (by simpa using hnull))
    · exact h.withMembers (by simpa using hundefined)
    · exact h.withMembers (by simpa using ⟨hnull, hundefined⟩)
  · exact h

/-! ## Symbols and variables -/

theorem mem_symbols {s : Symbol} : s ∈ t.symbols ↔ ∃ args, reference s args ∈ t.nodes := by
  unfold symbols
  rw [List.mem_filterMap]
  constructor
  · rintro ⟨n, hn, href⟩
    cases n <;> simp only [referenced?, reduceCtorEq, Option.some.injEq] at href
    exact ⟨_, href ▸ hn⟩
  · rintro ⟨args, hn⟩
    exact ⟨_, hn, rfl⟩

theorem mem_vars {name : String} : name ∈ t.vars ↔ var name ∈ t.nodes := by
  unfold vars
  rw [List.mem_filterMap]
  constructor
  · rintro ⟨n, hn, hvar⟩
    cases n <;> simp only [var?, reduceCtorEq, Option.some.injEq] at hvar
    exact hvar ▸ hn
  · intro hn
    exact ⟨_, hn, rfl⟩

theorem Within.symbol_of_mem {s : Symbol} {args : List TypeExpr} (h : t.Within voc)
    (hs : reference s args ∈ t.nodes) : voc.symbol s args.length :=
  h _ hs

theorem Within.var_of_mem {name : String} (h : t.Within voc) (hv : name ∈ t.vars) :
    voc.var name :=
  h _ (mem_vars.mp hv)

end TypeExpr

end Typings
