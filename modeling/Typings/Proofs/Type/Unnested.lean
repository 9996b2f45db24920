import Typings.Proofs.OptionalForms
import Typings.Proofs.Type.Vocabulary

/-!
# Types without nested optional types

A value is absent or not, so an optional type is not made optional again. A type that is rebuilt
from its parts keeps this if no part becomes optional that was not.

## Main definitions

* `TypeExpr.Unnested`: no optional type in a type is made optional again.

## Main results

* `TypeExpr.Unnested.orAbsent`: a type that is optional is left as it is.
* `TypeExpr.Unnested.transform`, `TypeExpr.Unnested.replaceBare`: rebuilding does not nest optional
  types.
* `TypeExpr.Unnested.optionalForm`: neither do the forms of optional properties.
-/

namespace Typings.TypeExpr

/-- Whether a type is an optional type made optional again. -/
def isNested : TypeExpr → Bool
  | optional inner => inner.isOptional
  | _ => false

/-- Whether no optional type in a type is made optional again. -/
def Unnested (t : TypeExpr) : Prop :=
  ∀ n ∈ t.nodes, n.isNested = false

variable {t : TypeExpr} {f : TypeExpr → TypeExpr}

theorem unnested_iff : t.Unnested ↔ t.isNested = false ∧ ∀ p ∈ t.parts, p.Unnested :=
  forall_mem_nodes

/-! ## Constructors -/

@[simp] theorem unnested_optional : (optional t).Unnested ↔ t.isOptional = false ∧ t.Unnested := by
  rw [unnested_iff]
  simp [isNested, parts]

/-- A type that is not optional is unnested if its parts are. -/
theorem unnested_iff_parts (h : t.isOptional = false) : t.Unnested ↔ ∀ p ∈ t.parts, p.Unnested := by
  rw [unnested_iff]
  refine and_iff_right ?_
  cases t with
  | optional => cases h
  | _ => rfl

@[simp] theorem unnested_reference {s : Symbol} {args : List TypeExpr} :
    (reference s args).Unnested ↔ ∀ a ∈ args, a.Unnested :=
  unnested_iff_parts rfl

@[simp] theorem unnested_union {members : List TypeExpr} :
    (union members).Unnested ↔ ∀ m ∈ members, m.Unnested :=
  unnested_iff_parts rfl

@[simp] theorem unnested_intersection {members : List TypeExpr} :
    (intersection members).Unnested ↔ ∀ m ∈ members, m.Unnested :=
  unnested_iff_parts rfl

@[simp] theorem unnested_array : (array t).Unnested ↔ t.Unnested := by
  rw [unnested_iff_parts rfl, parts, List.forall_mem_singleton]

@[simp] theorem unnested_indexed {key value : TypeExpr} :
    (indexed key value).Unnested ↔ key.Unnested ∧ value.Unnested := by
  rw [unnested_iff_parts rfl, parts, List.forall_mem_cons, List.forall_mem_singleton]

@[simp] theorem unnested_shape {fields : List (String × TypeExpr)} :
    (shape fields).Unnested ↔ ∀ f ∈ fields, f.2.Unnested := by
  rw [unnested_iff_parts rfl, parts, List.forall_mem_map]

@[simp] theorem unnested_function {params : List (String × TypeExpr)} {result : TypeExpr} :
    (function params result).Unnested ↔ (∀ p ∈ params, p.2.Unnested) ∧ result.Unnested := by
  rw [unnested_iff_parts rfl, parts, List.forall_mem_append, List.forall_mem_map,
    List.forall_mem_singleton]

@[simp] theorem unnested_literal {value : Literal} : (literal value).Unnested :=
  (unnested_iff_parts rfl).mpr (by simp [parts])

@[simp] theorem unnested_var {name : String} : (var name).Unnested :=
  (unnested_iff_parts rfl).mpr (by simp [parts])

@[simp] theorem unnested_primitive {kind : Primitive} : (primitive kind).Unnested :=
  (unnested_iff_parts rfl).mpr (by simp [parts])

@[simp] theorem unnested_verbatim {text : String} : (verbatim text).Unnested :=
  (unnested_iff_parts rfl).mpr (by simp [parts])

@[simp] theorem unnested_any : any.Unnested :=
  (unnested_iff_parts rfl).mpr (by simp [parts])

@[simp] theorem unnested_literalUnion (values : List String) : (literalUnion values).Unnested := by
  unfold literalUnion
  split <;> simp

/-- A type is made optional once. -/
theorem Unnested.orAbsent (h : t.Unnested) : t.orAbsent.Unnested := by
  unfold TypeExpr.orAbsent
  split
  case isTrue => exact h
  case isFalse hplain => exact unnested_optional.mpr ⟨by simpa using hplain, h⟩

/-! ## Rebuilding -/

theorem isOptional_transform (hf : ∀ n : TypeExpr, (f n).isOptional = n.isOptional) (t : TypeExpr) :
    (t.transform f).isOptional = t.isOptional := by
  rw [transform_eq, hf]
  cases t <;> rfl

/-- Rebuilding nests no optional types if it makes no node optional and brings no nested types
in. -/
theorem Unnested.transform (h : t.Unnested) (hf : ∀ n : TypeExpr, (f n).isOptional = n.isOptional)
    (step : ∀ n : TypeExpr, n.Unnested → (f n).Unnested) : (t.transform f).Unnested := by
  induction t using partsInduction with
  | step t ih =>
    obtain ⟨hroot, hparts⟩ := unnested_iff.mp h
    rw [transform_eq]
    refine step _ (unnested_iff.mpr ⟨?_, fun p hp => ?_⟩)
    · cases t with
      | optional inner => exact (isOptional_transform hf inner).trans hroot
      | _ => rfl
    · rw [parts_mapParts] at hp
      obtain ⟨q, hq, rfl⟩ := List.mem_map.mp hp
      exact ih q hq (hparts q hq)

theorem Unnested.replaceBare {substitution : Symbol → Option TypeExpr} (h : t.Unnested)
    (hplain : ∀ s r, substitution s = some r → r.isOptional = false)
    (hnew : ∀ s r, substitution s = some r → r.Unnested) :
    (t.replaceBare substitution).Unnested := by
  refine h.transform (fun n => ?_) fun n hn => ?_
  · cases hsub : n.bareSymbol?.bind substitution with
    | none => rfl
    | some r =>
      obtain ⟨s, hs, hr⟩ := Option.bind_eq_some_iff.mp hsub
      cases n with
      | optional => cases hs
      | _ => exact hplain s r hr
  · cases hsub : n.bareSymbol?.bind substitution with
    | none => exact hn
    | some r =>
      obtain ⟨s, -, hr⟩ := Option.bind_eq_some_iff.mp hsub
      exact hnew s r hr

theorem Unnested.members (h : t.Unnested) : ∀ m ∈ t.members, m.Unnested := by
  unfold TypeExpr.members
  split
  · exact unnested_union.mp h
  · simpa using h

theorem Unnested.withMembers (h : t.Unnested) {kinds : List Primitive} (hkinds : kinds.Nodup) :
    (t.withMembers kinds).Unnested := by
  rw [withMembers_eq t hkinds]
  rw [unnested_union, List.forall_mem_append, List.forall_mem_map]
  exact ⟨h.members, fun kind _ => unnested_primitive⟩

/-- A form adds members, and is optional once at most. -/
theorem Unnested.optionalForm {form : OptionalForm} (hform : form ≠ .questionMark)
    (h : t.Unnested) : (form.apply t).Unnested := by
  cases hoptional : t.isOptional with
  | false => rwa [OptionalForm.apply_of_not_isOptional form hoptional]
  | true =>
    cases t with
    | optional inner =>
      have hinner := (unnested_optional.mp h).2.withMembers form.nodup_added
      rw [OptionalForm.apply_optional hform]
      split
      · exact unnested_optional.mpr ⟨rfl, hinner⟩
      · exact hinner
    | _ => cases hoptional

end Typings.TypeExpr
