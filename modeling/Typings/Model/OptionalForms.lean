import Typings.Model.Basic
import Typings.Settings.Basic

/-!
# Forms of optional properties

## Main definitions

* `TypeExpr.withMembers`: a type united with further members.
* `OptionalForm.apply`: an optional type in a given form.
* `Model.withOptionalForm`: the model with its optional properties in a given form.
-/

namespace Typings

/-- The members of a union; another type is its only member. -/
def TypeExpr.members : TypeExpr → List TypeExpr
  | union members => members
  | t => [t]

/-- The union of a type and built-in types that are not among its members. -/
def TypeExpr.withMembers (t : TypeExpr) (kinds : List Primitive) : TypeExpr :=
  .union (kinds.foldl
    (fun members kind =>
      if members.contains (.primitive kind) then members else members ++ [.primitive kind])
    t.members)

/-- An optional type in a given form; another type stays as it is. -/
def OptionalForm.apply (form : OptionalForm) : TypeExpr → TypeExpr
  | .optional inner =>
    match form with
    | questionMark => inner.orAbsent
    | nullable => inner.withMembers [.null]
    | questionMarkAndNullable => (inner.withMembers [.null]).orAbsent
    | undefinable => inner.withMembers [.undefined]
    | nullableAndUndefinable => inner.withMembers [.null, .undefined]
  | t => t

/-- The model with the optional properties of its data in a given form. Services keep theirs. -/
def Model.withOptionalForm (form : OptionalForm) (model : Model) : Model :=
  -- a question mark is how optional types are written anyway
  if form = .questionMark then model
  else
    { model with
      data := model.data.map fun d =>
        if d.category = .data then
          { d with properties := d.properties.map fun p => { p with type := form.apply p.type } }
        else d }

end Typings
