import Typings.Model.Inherited

/-!
# Reviving parsed data

Parsed data has the shape of the declarations but not their classes. Every class made of a source
class gets a function that copies parsed data into an instance. Generic classes get a function that
makes such a function, and the bases of tagged unions one that chooses the class by the
discriminant.

## Main definitions

* `Model.copyFunction`: the expression of a function that copies values of a type.
* `Model.fromData`, `fromDataFn`, `Model.fromDataUnion`: the functions of a class.
* `Model.withRevival`: the model whose classes have these functions.
-/

namespace Typings

/-- The function that returns its argument. -/
def identityName : String := "__identity"

/-- The function that copies values of a type by returning them. -/
def identityOf (type : TypeExpr) : Expression :=
  .call (.identifier identityName) [type] []

/-- The parameter that holds the copy function of a type parameter. -/
def constructorName (typeParameter : String) : String :=
  "constructorFnOf" ++ typeParameter

/-- The class that a symbol leads to, by its own symbol or by the alias of its union. -/
def Model.revivable? (model : Model) (symbol : Symbol) : Option DataDeclaration :=
  (model.data.find? fun d => d.symbol == symbol || d.unionAlias == some symbol).filter (·.isClass)

/-- The generic class that a symbol is the own symbol of. -/
def Model.revivableGeneric? (model : Model) (symbol : Symbol) : Option DataDeclaration :=
  (model.revivable? symbol).filter fun d => d.symbol == symbol && !d.typeParameters.isEmpty

mutual

def Model.copyFunction (model : Model) : TypeExpr → Expression
  | .reference symbol [] =>
    match model.revivable? symbol with
    | some d =>
      .member (.typeName (.bare d.symbol))
        -- the class of an object of a union is known by its discriminant only
        (if d.unionAlias.isSome then "fromDataUnion" else "fromData")
    | none => identityOf (.bare symbol)
  | .reference symbol (arg :: args) =>
    match model.revivableGeneric? symbol with
    | some d =>
      .call (.member (.typeName (.bare d.symbol)) "fromDataFn") (arg :: args)
        (model.copyFunction arg :: Model.copyFunctions model args)
    | none => identityOf (.reference symbol (arg :: args))
  | .array element => .apply (.identifier "__getCopyArrayFn") [model.copyFunction element]
  | .indexed _ value => .apply (.identifier "__getCopyObjectFn") [model.copyFunction value]
  | .var name => .identifier (constructorName name)
  -- what is absent is returned by every copy function
  | .optional inner => model.copyFunction inner
  | .union members => identityOf (.union members)
  | .intersection members => identityOf (.intersection members)
  | .shape fields => identityOf (.shape fields)
  | .function params result => identityOf (.function params result)
  | .literal value => identityOf (.literal value)
  | .primitive kind => identityOf (.primitive kind)
  | .verbatim text => identityOf (.verbatim text)
  | .any => identityOf .any

/-- The expressions of functions that copy values of the given types. -/
def Model.copyFunctions (model : Model) : List TypeExpr → List Expression
  | [] => []
  | t :: rest => model.copyFunction t :: Model.copyFunctions model rest

end

namespace DataDeclaration

/-- The type of instances, over the declaration's own type parameters. -/
def selfType (d : DataDeclaration) : TypeExpr :=
  .reference d.symbol (d.typeParameters.map .var)

/-- A parameter for the copy function of every type parameter. -/
def constructorParameters (d : DataDeclaration) : List Parameter :=
  d.typeParameters.map fun name =>
    { name := constructorName name, type := .function [("data", .var name)] (.var name) }

/-- A static method over the declaration's own type parameters. -/
def staticMethod (d : DataDeclaration) (name : String) (parameters : List Parameter)
    (result : TypeExpr) (body : List Statement) : Method :=
  { name
    modifiers := { static := true }
    typeParameters := d.typeParameters
    parameters
    result
    body := some body }

/-- The function that makes a `fromData` of the copy functions of type arguments. -/
def fromDataFn (d : DataDeclaration) : Method :=
  let parameters := d.constructorParameters
  let copy := .apply (.member (.typeName (.bare d.symbol)) "fromData")
    (.identifier "data" :: parameters.map fun p => .identifier p.name)
  d.staticMethod "fromDataFn" parameters (.function [("data", d.selfType)] d.selfType)
    [.returns (some (.arrow [("data", none)] copy))]

end DataDeclaration

namespace Model

/-- Assigns the copy of a property of the data to the instance. Values that are copied by returning
them are assigned as they are. -/
def copyProperty (model : Model) (p : Property) : Statement :=
  let source : Expression := .member (.identifier "data") p.name
  let copy := model.copyFunction p.type
  let value := if copy.isCallOf identityName then source else .apply copy [source]
  .perform (.assign (.member (.identifier "instance") p.name) value)

/-- The function that copies data into an instance. The parent copies the properties that it has. -/
def fromData (model : Model) (d : DataDeclaration) : Method :=
  let inherited := model.inherited d.parent.toList
  -- the parent copies what it has, so only the other properties are copied here
  let copied := d.properties.filter fun p => (inherited.type? p.name).isNone
  let parentCall : List Statement :=
    if d.parent.isSome then
      [.perform (.apply (.member .super "fromData") [.identifier "data", .identifier "instance"])]
    else []
  d.staticMethod "fromData"
    ({ name := "data", type := d.selfType } :: d.constructorParameters ++
      [{ name := "target", type := d.selfType.orAbsent }])
    d.selfType
    ([.returnIfAbsent "data",
      .constant "instance" (.or (.identifier "target") (.create d.selfType []))] ++
      parentCall ++ copied.map model.copyProperty ++ [.returns (some (.identifier "instance"))])

/-- The function that copies data of a tagged union by the class of its discriminant. -/
def fromDataUnion (model : Model) (d : DataDeclaration) : Method :=
  let type : TypeExpr := (d.unionAlias.map .bare).getD .any
  let members := d.unionMembers.filterMap model.findOrigin?
  -- a member without a value of its own cannot be told apart
  let cases := members.filterMap fun member =>
    member.discriminantLiteral.map fun value =>
      (Expression.text value,
        [Statement.returns (some (.apply (.member (.typeName (.bare member.symbol)) "fromData")
          [.identifier "data"]))])
  { name := "fromDataUnion"
    modifiers := { static := true }
    parameters := [{ name := "data", type }]
    result := type
    body := some
      [.returnIfAbsent "data",
        .switch (.member (.identifier "data") (d.discriminantProperty.getD "")) cases] }

/-- The functions that revive a class in front of its methods. The function of a union comes
second. -/
def revivalMethods (model : Model) (d : DataDeclaration) : List Method :=
  let generic := if d.typeParameters.isEmpty then [] else [d.fromDataFn]
  let methods := generic ++ model.fromData d :: d.methods
  if d.unionAlias.isSome then methods.insertIdx 1 (model.fromDataUnion d) else methods

/-- The model whose classes can be revived from parsed data. -/
def withRevival (model : Model) : Model :=
  let model := model.withHelper .copyFunctions
  { model with
    data := model.data.map fun d =>
      if d.isDataClass then { d with methods := model.revivalMethods d } else d }

end Model

end Typings
