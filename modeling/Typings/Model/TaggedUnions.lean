import Typings.Model.Basic
import Typings.Session

/-!
# Tagged unions

A declaration with a discriminant and union members is the base of a tagged union. The union gets an
alias, which takes the place of references to the base.

## Main definitions

* `Model.unionDefinition`: the union of the declared members of a base.
* `Model.useUnions`: replaces references to bases by the aliases of their unions.
* `Model.declareUnions`: declares the aliases and uses them.
-/

namespace Typings

namespace Model

def isUnionBase (d : DataDeclaration) : Bool :=
  d.discriminantProperty.isSome && !d.unionMembers.isEmpty

def unionBases (model : Model) : List DataDeclaration :=
  model.data.filter isUnionBase

def unionDefinition (model : Model) (base : DataDeclaration) : TypeExpr :=
  .union (base.unionMembers.filterMap fun entity =>
    (model.findOrigin? entity).map fun member => .bare member.symbol)

/-- The members that are not declared, base by base. -/
def missingUnionMembers (model : Model) : List String :=
  model.unionBases.flatMap fun base =>
    base.unionMembers.filter fun entity => (model.findOrigin? entity).isNone

def lastOf? {α β : Type} [BEq α] (entries : List (α × β)) (key : α) : Option β :=
  entries.reverse.lookup key

def unionAliases (model : Model) : List (Symbol × Symbol) :=
  model.data.filterMap fun d => d.unionAlias.map fun symbol => (d.symbol, symbol)

/-- Replaces references to bases without type arguments by the aliases of their unions in the
selected declarations. The aliases have no type parameters, so other references stay. -/
def useUnions (model : Model) (selects : DataDeclaration → Bool) : Model :=
  model.mapDataTypes selects
    (·.replaceBare fun symbol => (lastOf? model.unionAliases symbol).map .bare)

def unionAlias (model : Model) (base : DataDeclaration) : Work AliasDeclaration := do
  let symbol ← Work.suffixedSymbol base.symbol "Union"
  pure
    { origin := (model.findData? base.symbol).bind (·.origin)
      symbol
      definition := model.unionDefinition base }

/-- The model with union aliases and the bases that they belong to. -/
def withUnions (model : Model) (unions : List (Symbol × AliasDeclaration)) : Model :=
  { model with
    aliases := model.aliases ++ unions.map (·.2)
    data := model.data.map fun d =>
      match lastOf? unions d.symbol with
      | some union => { d with unionAlias := some union.symbol }
      | none => d }

/-- Declares an alias for every tagged union and uses it in place of the base. -/
def declareUnions (model : Model) : Work Model := do
  -- members that are not declared are left out of the union, which is only logged
  model.missingUnionMembers.forM fun entity =>
    Work.report .debug .unions ("tagged union member '" ++ entity ++ "' is not declared")
  let unions ← model.unionBases.mapM fun base => do
    let union ← model.unionAlias base
    pure (base.symbol, union)
  pure ((model.withUnions unions).useUnions fun _ => true)

end Model

end Typings
