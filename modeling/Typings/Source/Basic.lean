import Typings.Literal

/-!
# Source graphs

A source graph lists the classes, the enums and the endpoints that a reflection layer found. They
refer to each other by fully qualified entity name.

## Main definitions

* `SourceType`: a type as the reflection layer sees it.
* `SourceClass`, `SourceEnum`: classes, interfaces and enums.
* `Endpoint`, `Application`: the methods of a REST application.
* `SourceGraph`: the whole graph.
-/

namespace Typings

/-- A type of the source language. -/
inductive SourceType where
  /-- A named type, applied to type arguments or not. -/
  | named (name : String) (args : List SourceType)
  /-- A type variable. -/
  | var (name : String)
  | array (element : SourceType)
  | union (types : List SourceType)
  | nullable (inner : SourceType)
  deriving Repr, Inhabited

namespace SourceType

def name? : SourceType → Option String
  | named name _ => some name
  | _ => none

/-- The entity name of a named type under any number of `nullable`. -/
def nullableName? : SourceType → Option String
  | nullable inner => inner.nullableName?
  | named name _ => some name
  | _ => none

mutual

/-- The type in messages. -/
def shown : SourceType → String
  | named name [] => name
  | named name (arg :: args) =>
    name ++ "<" ++ String.intercalate ", " (arg.shown :: shownAll args) ++ ">"
  | var name => name
  | array element => element.shown ++ "[]"
  | union types => String.intercalate " | " (shownAll types)
  | nullable inner => inner.shown ++ "?"

def shownAll : List SourceType → List String
  | [] => []
  | t :: rest => t.shown :: shownAll rest

end

end SourceType

/-- Whether a class is one or an interface. -/
inductive ClassKind where
  | plainClass
  | plainInterface
  deriving Repr, DecidableEq, Inhabited

/-- Replaces a property by the properties of its type, named with affixes. -/
structure Pull where
  before : String := ""
  after : String := ""
  deriving Repr, DecidableEq, Inhabited

/-- A property of a source class. -/
structure SourceProperty where
  name : String
  type : SourceType
  optional : Bool := false
  pull : Option Pull := none
  comments : List String := []
  deriving Repr, Inhabited

/-- A class or an interface. -/
structure SourceClass where
  name : String
  kind : ClassKind := .plainClass
  typeParameters : List String := []
  parent : Option SourceType := none
  interfaces : List SourceType := []
  properties : List SourceProperty := []
  discriminantProperty : Option String := none
  discriminantLiteral : Option String := none
  /-- The entities of the tagged union whose base this class is. -/
  unionMembers : List String := []
  comments : List String := []
  deriving Repr, Inhabited

def SourceClass.isInterface (c : SourceClass) : Bool :=
  c.kind == .plainInterface

/-- The named types that a class extends or implements. -/
def SourceClass.supertypeNames (c : SourceClass) : List String :=
  (c.parent.toList ++ c.interfaces).filterMap (·.name?)

/-- A member of a source enum. -/
structure SourceEnumMember where
  name : String
  value : Option Literal := none
  comments : List String := []
  deriving Repr, DecidableEq, Inhabited

/-- An enum. -/
structure SourceEnum where
  name : String
  members : List SourceEnumMember
  comments : List String := []
  deriving Repr, DecidableEq, Inhabited

/-- A named value that an endpoint takes. -/
structure EndpointParam where
  name : String
  type : SourceType
  deriving Repr, Inhabited

/-- A query parameter: a single one, or a bean with one parameter for each property. -/
inductive QueryParam where
  | single (param : EndpointParam)
  | bean (bean : SourceClass)
  deriving Repr, Inhabited

/-- A method of a REST application. -/
structure Endpoint where
  name : String
  httpMethod : String
  /-- The path template below the path of the application. -/
  path : String
  /-- The entity that the method belongs to. -/
  resource : String
  /-- The name of the group that the method is marked with. -/
  groupMark : Option String := none
  pathParams : List EndpointParam := []
  queryParams : List QueryParam := []
  /-- The body of the request. -/
  entity : Option EndpointParam := none
  /-- The body of the response; none if there is no content. -/
  returnType : Option SourceType := none
  comments : List String := []
  deriving Repr, Inhabited

/-- A REST application. -/
structure Application where
  name : Option String := none
  path : Option String := none
  methods : List Endpoint
  deriving Repr, Inhabited

/-- Everything that the reflection layer found. -/
structure SourceGraph where
  classes : List SourceClass := []
  enums : List SourceEnum := []
  rest : Option Application := none
  deriving Repr, Inhabited

namespace SourceGraph

def findClass? (graph : SourceGraph) (name : String) : Option SourceClass :=
  graph.classes.find? (·.name == name)

def findEnum? (graph : SourceGraph) (name : String) : Option SourceEnum :=
  graph.enums.find? (·.name == name)

/-- The names of all classes and enums. -/
def declaredNames (graph : SourceGraph) : List String :=
  graph.classes.map (·.name) ++ graph.enums.map (·.name)

end SourceGraph

end Typings
