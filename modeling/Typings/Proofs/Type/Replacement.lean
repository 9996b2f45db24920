import Typings.Proofs.Type.Equality

/-!
# Replacement in types

The steps that change types replace some of their leaves: references, placeholders, variables. A
type is rebuilt from its leaves up, so it has to be said that what is put in place of a leaf is not
looked into again, and that nodes with parts keep their root.

## Main definitions

* `TypeExpr.ReplacedBy`: a type is another one with its leaves replaced by a rule.
* `TypeExpr.substitute`: replaces the variables of a type.

## Main results

* `TypeExpr.ReplacedBy.transform`: rebuilding a type replaces its leaves.
* `TypeExpr.ReplacedBy.replaceBare`: replacing references without type arguments.
* `TypeExpr.ReplacedBy.forall_nodes`: nothing is left to be replaced, unless replacements bring it
  in.
* `TypeExpr.substitute_substitute`: one substitution after another is a single one.
* `TypeExpr.equal_substitute_iff`: a substitution keeps exactly the types whose variables it keeps.
* `TypeExpr.equal_substitute`: substitution respects equality.
-/

namespace Typings.TypeExpr

variable {t u : TypeExpr}

theorem mapParts_eq_self (h : t.parts = []) (g : TypeExpr → TypeExpr) : t.mapParts g = t := by
  cases t <;> simp_all [parts, mapParts]

/-- Whether the second type is the first one with every node replaced that the rule has a
replacement for, at any depth. The replacements are not looked into again. -/
inductive ReplacedBy (rule : TypeExpr → TypeExpr → Prop) : TypeExpr → TypeExpr → Prop
  | here {t u : TypeExpr} : rule t u → ReplacedBy rule t u
  | inside {t : TypeExpr} (g : TypeExpr → TypeExpr) : (∀ u, ¬rule t u) →
      (∀ p ∈ t.parts, ReplacedBy rule p (g p)) → ReplacedBy rule t (t.mapParts g)

/-! ## Rules for leaves -/

section Leaves

variable {rule : TypeExpr → TypeExpr → Prop} (hleaf : ∀ t u, rule t u → t.parts = [])

include hleaf

/-- Changing the parts of a node does not give it a replacement. -/
theorem not_rule_mapParts (h : ∀ u, ¬rule t u) (g : TypeExpr → TypeExpr) (u : TypeExpr) :
    ¬rule (t.mapParts g) u := by
  intro hu
  have hparts := hleaf _ _ hu
  rw [parts_mapParts, List.map_eq_nil_iff] at hparts
  rw [mapParts_eq_self hparts] at hu
  exact h u hu

/-- Rebuilding a type with a function that replaces by the rule replaces all its leaves. -/
theorem ReplacedBy.transform {f : TypeExpr → TypeExpr} (hnew : ∀ t u, rule t u → f t = u)
    (hold : ∀ t, (∀ u, ¬rule t u) → f t = t) (t : TypeExpr) :
    ReplacedBy rule t (t.transform f) := by
  induction t using partsInduction with
  | step t ih =>
    rw [transform_eq]
    by_cases h : ∃ u, rule t u
    · obtain ⟨u, hu⟩ := h
      rw [mapParts_eq_self (hleaf t u hu), hnew t u hu]
      exact .here hu
    · rw [not_exists] at h
      rw [hold _ (not_rule_mapParts hleaf h _)]
      exact .inside _ h ih

/-- Nothing is left to be replaced, unless the replacements bring it in. -/
theorem ReplacedBy.forall_nodes (h : ReplacedBy rule t u)
    (hnew : ∀ t u, rule t u → ∀ n ∈ u.nodes, ∀ v, ¬rule n v) : ∀ n ∈ u.nodes, ∀ v, ¬rule n v := by
  induction h with
  | here hu => exact hnew _ _ hu
  | inside g hnone _ ih =>
    rw [nodes_eq, parts_mapParts]
    refine List.forall_mem_cons.mpr ⟨not_rule_mapParts hleaf hnone g, fun n hn => ?_⟩
    obtain ⟨_, hpart, hn⟩ := List.mem_flatMap.mp hn
    obtain ⟨p, hp, rfl⟩ := List.mem_map.mp hpart
    exact ih p hp n hn

end Leaves

/-! ## References -/

theorem eq_bare_of_bareSymbol? {s : Symbol} (h : t.bareSymbol? = some s) : t = bare s := by
  unfold bareSymbol? at h
  split at h
  · rw [Option.some.inj h]
  · cases h

/-- Replacing references without type arguments is a replacement by the substitution for their
symbols. -/
theorem ReplacedBy.replaceBare {rule : TypeExpr → TypeExpr → Prop}
    {substitution : Symbol → Option TypeExpr}
    (hrule : ∀ t u, rule t u ↔ ∃ s, t = bare s ∧ substitution s = some u) (t : TypeExpr) :
    ReplacedBy rule t (t.replaceBare substitution) := by
  refine .transform ?_ ?_ ?_ t
  · intro t u h
    obtain ⟨s, rfl, -⟩ := (hrule t u).mp h
    rfl
  · intro t u h
    obtain ⟨s, rfl, hs⟩ := (hrule t u).mp h
    show (substitution s).getD (bare s) = u
    rw [hs, Option.getD_some]
  · intro t hnone
    cases hbare : t.bareSymbol? with
    | none => rfl
    | some s =>
      obtain rfl := eq_bare_of_bareSymbol? hbare
      cases hs : substitution s with
      | none => simp [hs]
      | some u => exact absurd ((hrule _ u).mpr ⟨s, rfl, hs⟩) (hnone u)

/-! ## Variables -/

/-- Replaces the variables of a type. -/
def substitute (values : String → TypeExpr) : TypeExpr → TypeExpr :=
  transform fun t => (t.var?.map values).getD t

section Substitution

variable {values values' : String → TypeExpr}

@[simp] theorem substitute_var (v : String) : (var v).substitute values = values v := rfl

theorem var?_mapParts (g : TypeExpr → TypeExpr) (t : TypeExpr) : (t.mapParts g).var? = t.var? := by
  cases t <;> rfl

theorem substitute_eq_mapParts (h : t.var? = none) :
    t.substitute values = t.mapParts (substitute values) := by
  rw [substitute, transform_eq, var?_mapParts, h, Option.map_none, Option.getD_none]

theorem eq_var_of_var? {v : String} (h : t.var? = some v) : t = var v := by
  cases t <;> simp_all [var?]

/-- One substitution after another is a single one. -/
theorem substitute_substitute (t : TypeExpr) :
    (t.substitute values).substitute values' =
      t.substitute fun v => (values v).substitute values' := by
  induction t using partsInduction with
  | step t ih =>
    cases hvar : t.var? with
    | some v => rw [eq_var_of_var? hvar, substitute_var, substitute_var]
    | none =>
      rw [substitute_eq_mapParts hvar, substitute_eq_mapParts hvar,
        substitute_eq_mapParts (by rw [var?_mapParts, hvar]), mapParts_mapParts]
      exact mapParts_congr ih

theorem vars_eq (t : TypeExpr) : t.vars = t.var?.toList ++ t.parts.flatMap vars := by
  unfold vars
  rw [nodes_eq, List.filterMap_cons, List.filterMap_flatMap]
  cases t.var? <;> rfl

@[simp] theorem vars_var (v : String) : (var v).vars = [v] := by
  simp [vars_eq, var?, parts]

theorem sameRoot_mapParts (g : TypeExpr → TypeExpr) (t : TypeExpr) :
    (t.mapParts g).sameRoot t = true := by
  cases t <;> simp [mapParts, sameRoot, Function.comp_def]

theorem eq_var_of_equal {v : String} (h : t.equal (var v) = true) : t = var v := by
  cases t <;> simp_all [equal]

/-- A substitution that keeps the variables of a type keeps the type. -/
theorem substitute_eq_self (h : ∀ v ∈ t.vars, values v = var v) : t.substitute values = t := by
  refine transform_eq_self t fun n hn => ?_
  cases hvar : n.var? with
  | none => rfl
  | some v =>
    obtain rfl := eq_var_of_var? hvar
    exact h v (mem_vars.mpr hn)

/-- A substitution keeps exactly the types whose variables it keeps. -/
theorem equal_substitute_iff :
    (t.substitute values).equal t = true ↔ ∀ v ∈ t.vars, values v = var v := by
  refine ⟨fun h => ?_, fun h => by rw [substitute_eq_self h]; exact equal_refl t⟩
  induction t using partsInduction with
  | step t ih =>
    cases hvar : t.var? with
    | some w =>
      obtain rfl := eq_var_of_var? hvar
      intro v hv
      obtain rfl : v = w := by simpa using hv
      exact eq_var_of_equal h
    | none =>
      intro v hv
      rw [vars_eq, hvar] at hv
      obtain ⟨p, hp, hv⟩ := List.mem_flatMap.mp hv
      rw [substitute_eq_mapParts hvar, equal_iff, parts_mapParts, List.forall₂_map_left_iff,
        List.forall₂_same] at h
      exact ih p hp (h.2 p hp) v hv

/-- Substitution respects equality. -/
theorem equal_substitute (h : t.equal u = true) :
    (t.substitute values).equal (u.substitute values) = true := by
  induction t using partsInduction generalizing u with
  | step t ih =>
    obtain ⟨hroot, hparts⟩ := equal_iff.mp h
    cases hvar : t.var? with
    | some v =>
      rw [eq_var_of_var? hvar] at h ⊢
      rw [eq_var_of_equal (equal_symm h)]
      exact equal_refl _
    | none =>
      have hvar' : u.var? = none := by
        cases t <;> cases u <;> simp_all [var?, sameRoot]
      rw [substitute_eq_mapParts hvar, substitute_eq_mapParts hvar']
      refine equal_iff.mpr ⟨?_, ?_⟩
      · exact sameRoot_trans (sameRoot_mapParts _ t)
          (sameRoot_trans hroot (sameRoot_symm (sameRoot_mapParts _ u)))
      · rw [parts_mapParts, parts_mapParts, List.forall₂_map_left_iff, List.forall₂_map_right_iff]
        refine List.forall₂_iff_zip.mpr ⟨hparts.length_eq, fun hpair => ?_⟩
        exact ih _ (List.of_mem_zip hpair).1 (List.forall₂_zip hparts hpair)

end Substitution

end Typings.TypeExpr
