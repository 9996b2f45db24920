import Typings.Code

/-!
# Models of declarations

A model holds the declarations that are generated: interfaces and classes, aliases and enums, with
the helper functions that their code calls. Declarations refer to each other by symbol only.

## Main definitions

* `DataDeclaration`, `AliasDeclaration`, `EnumDeclaration`: the declarations.
* `Model`: the declarations as they are built and changed.
* `OrderedModel`: the declarations in the order in which they are written.
* `DataDeclaration.mapTypes`: changes the types of properties, parameters and results.
-/

namespace Typings

/-- What a declaration is for; the order of the constructors is the order of the output. -/
inductive Category where
  /-- A source class or interface. -/
  | data
  /-- A declaration that services depend on. -/
  | servicePrerequisite
  /-- A surface or client of endpoints. -/
  | service
  deriving Repr, DecidableEq, Inhabited

/-- The position of a category in the output. -/
def Category.rank : Category → Nat
  | data => 0
  | servicePrerequisite => 1
  | service => 2

/-- The modifiers of a property or method. -/
structure Modifiers where
  readonly : Bool := false
  static : Bool := false
  deriving Repr, DecidableEq, Inhabited

/-- A property of a declaration. -/
structure Property where
  name : String
  type : TypeExpr
  modifiers : Modifiers := {}
  /-- Whether the property belongs to this declaration even if a supertype has the same one. -/
  own : Bool := false
  comments : List String := []
  deriving Repr, Inhabited

/-- A parameter of a method. -/
structure Parameter where
  name : String
  type : TypeExpr
  deriving Repr, Inhabited

/-- Who may use a member. -/
inductive Accessibility where
  | publicMember
  | protectedMember
  | privateMember
  deriving Repr, DecidableEq, Inhabited

/-- A parameter of a constructor; with an accessibility it is a property as well. -/
structure ConstructorParameter where
  name : String
  type : TypeExpr
  accessibility : Option Accessibility := none
  deriving Repr, Inhabited

/-- A constructor. -/
structure Constructor where
  parameters : List ConstructorParameter := []
  body : List Statement := []
  deriving Repr, Inhabited

/-- A method; one without a body is only declared. -/
structure Method where
  name : String
  modifiers : Modifiers := {}
  typeParameters : List String := []
  parameters : List Parameter := []
  result : TypeExpr
  body : Option (List Statement) := none
  comments : List String := []
  deriving Repr, Inhabited

/-- An interface or a class. -/
structure DataDeclaration where
  /-- The source entity, if the declaration is made of one. -/
  origin : Option String := none
  symbol : Symbol
  category : Category := .data
  isClass : Bool := false
  typeParameters : List String := []
  /-- The supertype that a class extends. -/
  parent : Option TypeExpr := none
  /-- The interfaces of a class, the further supertypes of an interface. -/
  interfaces : List TypeExpr := []
  properties : List Property := []
  ctor : Option Constructor := none
  methods : List Method := []
  comments : List String := []
  /-- The property that tells the members of a tagged union apart. -/
  discriminantProperty : Option String := none
  /-- The value of that property in objects of this declaration. -/
  discriminantLiteral : Option String := none
  /-- The entities of the tagged union whose base this declaration is. -/
  unionMembers : List String := []
  /-- The alias of that tagged union, once it is declared. -/
  unionAlias : Option Symbol := none
  deriving Repr, Inhabited

/-- A name for a type. -/
structure AliasDeclaration where
  origin : Option String := none
  symbol : Symbol
  typeParameters : List String := []
  definition : TypeExpr
  comments : List String := []
  deriving Repr, Inhabited

/-- Whether the values of an enum are texts or numbers. -/
inductive EnumKind where
  | stringBased
  | numberBased
  deriving Repr, DecidableEq, Inhabited

/-- How an enum is written. -/
inductive EnumRepresentation where
  /-- Not chosen yet. -/
  | pending
  /-- With the values of its members. -/
  | valued
  /-- Without values. -/
  | numericPlaceholder
  deriving Repr, DecidableEq, Inhabited

/-- A member of an enum. -/
structure EnumMember where
  name : String
  value : Option Literal := none
  comments : List String := []
  deriving Repr, DecidableEq, Inhabited

/-- An enum. -/
structure EnumDeclaration where
  origin : String
  symbol : Symbol
  kind : EnumKind := .stringBased
  members : List EnumMember := []
  representation : EnumRepresentation := .pending
  comments : List String := []
  deriving Repr, DecidableEq, Inhabited

/-- Functions that generated code calls. -/
inductive Helper where
  /-- Functions that copy arrays, maps and plain values. -/
  | copyFunctions
  /-- The tag of templates whose substitutions are encoded for addresses. -/
  | uriEncoding
  deriving Repr, DecidableEq, Inhabited

/-- The declarations while they are built and changed. -/
structure Model where
  data : List DataDeclaration := []
  aliases : List AliasDeclaration := []
  enums : List EnumDeclaration := []
  helpers : List Helper := []
  /-- The definitions that stand in for inlined enums, in the order of their symbols. -/
  inlinedEnums : List (Symbol × TypeExpr) := []
  deriving Repr, Inhabited

/-- A declaration of any kind. -/
inductive Declaration where
  | ofData (declaration : DataDeclaration)
  | ofAlias (declaration : AliasDeclaration)
  | ofEnum (declaration : EnumDeclaration)
  deriving Repr, Inhabited

/-- The declarations in the order in which they are written. -/
structure OrderedModel where
  declarations : List Declaration := []
  helpers : List Helper := []
  deriving Repr, Inhabited

def Declaration.symbol : Declaration → Symbol
  | ofData d => d.symbol
  | ofAlias a => a.symbol
  | ofEnum e => e.symbol

namespace DataDeclaration

/-- The parent, then the interfaces. -/
def supertypes (d : DataDeclaration) : List TypeExpr :=
  d.parent.toList ++ d.interfaces

def property? (d : DataDeclaration) (name : String) : Option Property :=
  d.properties.find? (·.name == name)

/-- Whether the declaration is a class made of a source class. -/
def isDataClass (d : DataDeclaration) : Bool :=
  d.isClass && d.category == .data

/-- The types of properties, of method parameters and results, and of constructor parameters. -/
def types (d : DataDeclaration) : List TypeExpr :=
  d.properties.map (·.type) ++
    d.methods.flatMap (fun m => m.parameters.map (·.type) ++ [m.result]) ++
    d.ctor.toList.flatMap (fun c => c.parameters.map (·.type))

/-- Changes those types. -/
def mapTypes (f : TypeExpr → TypeExpr) (d : DataDeclaration) : DataDeclaration :=
  { d with
    properties := d.properties.map fun p => { p with type := f p.type }
    methods := d.methods.map fun m =>
      { m with
        parameters := m.parameters.map fun p => { p with type := f p.type }
        result := f m.result }
    ctor := d.ctor.map fun c =>
      { c with parameters := c.parameters.map fun p => { p with type := f p.type } } }

end DataDeclaration

namespace Model

/-- The first interface or class with that symbol. -/
def findData? (model : Model) (symbol : Symbol) : Option DataDeclaration :=
  model.data.find? (·.symbol == symbol)

/-- The first interface or class made of that entity. -/
def findOrigin? (model : Model) (entity : String) : Option DataDeclaration :=
  model.data.find? (·.origin == some entity)

def findAlias? (model : Model) (symbol : Symbol) : Option AliasDeclaration :=
  model.aliases.find? (·.symbol == symbol)

def supertype? (model : Model) (type : TypeExpr) : Option DataDeclaration :=
  type.referenced?.bind model.findData?

/-- The model with a helper, which is listed once. -/
def withHelper (model : Model) (helper : Helper) : Model :=
  if model.helpers.contains helper then model
  else { model with helpers := model.helpers ++ [helper] }

/-- Changes the types of the selected interfaces and classes. -/
def mapDataTypes (model : Model) (selects : DataDeclaration → Bool) (f : TypeExpr → TypeExpr) :
    Model :=
  { model with data := model.data.map fun d => if selects d then d.mapTypes f else d }

end Model

end Typings
