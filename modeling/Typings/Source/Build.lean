import Typings.Source.Basic

/-!
# Building source graphs

Graphs are built step by step; each step returns the extended value.

## Main definitions

* `SourceClass.extending`, `SourceClass.implementing`, `SourceClass.withProperty` and their kin.
* `SourceEnum.ofNames`: an enum whose members stand for their names.
* `Endpoint.withPathParam`, `Endpoint.withQueryParam`, `Endpoint.withQueryBean` and their kin.
* `SourceGraph.withClass`, `SourceGraph.withEnum`, `SourceGraph.withRest`.
-/

namespace Typings

namespace SourceProperty

/-- The property, which may be absent. -/
def asOptional (p : SourceProperty) : SourceProperty :=
  { p with optional := true }

/-- The property, replaced by the properties of its type. -/
def pulled (p : SourceProperty) (before after : String) : SourceProperty :=
  { p with pull := some { before, after } }

end SourceProperty

namespace SourceClass

/-- An empty interface. -/
def interface (name : String) : SourceClass :=
  { name, kind := .plainInterface }

def withTypeParameters (c : SourceClass) (names : List String) : SourceClass :=
  { c with typeParameters := names }

/-- The class with a parent, which replaces an earlier one. -/
def extending (c : SourceClass) (parent : SourceType) : SourceClass :=
  { c with parent := some parent }

/-- The class with a further interface. -/
def implementing (c : SourceClass) (type : SourceType) : SourceClass :=
  { c with interfaces := c.interfaces ++ [type] }

def withProperty (c : SourceClass) (p : SourceProperty) : SourceClass :=
  { c with properties := c.properties ++ [p] }

/-- The class with a discriminant and its value for objects of this class. -/
def withDiscriminant (c : SourceClass) (property : String) (value : Option String) : SourceClass :=
  { c with discriminantProperty := some property, discriminantLiteral := value }

/-- The class as the base of a tagged union. -/
def withUnionMembers (c : SourceClass) (entities : List String) : SourceClass :=
  { c with unionMembers := entities }

end SourceClass

def SourceEnum.ofNames (name : String) (members : List String) : SourceEnum :=
  { name, members := members.map fun member => { name := member } }

namespace Endpoint

/-- The endpoint with content in its response. -/
def returning (m : Endpoint) (type : SourceType) : Endpoint :=
  { m with returnType := some type }

/-- The endpoint with a further path parameter. -/
def withPathParam (m : Endpoint) (name : String) (type : SourceType) : Endpoint :=
  { m with pathParams := m.pathParams ++ [{ name, type }] }

/-- The endpoint with a further query parameter. -/
def withQueryParam (m : Endpoint) (name : String) (type : SourceType) : Endpoint :=
  { m with queryParams := m.queryParams ++ [.single { name, type }] }

/-- The endpoint with a further bean of query parameters. -/
def withQueryBean (m : Endpoint) (bean : SourceClass) : Endpoint :=
  { m with queryParams := m.queryParams ++ [.bean bean] }

/-- The endpoint with content in its request. -/
def withEntity (m : Endpoint) (name : String) (type : SourceType) : Endpoint :=
  { m with entity := some { name, type } }

/-- The endpoint marked with the name of a group. -/
def groupedAs (m : Endpoint) (group : String) : Endpoint :=
  { m with groupMark := some group }

end Endpoint

namespace SourceGraph

def withClass (graph : SourceGraph) (c : SourceClass) : SourceGraph :=
  { graph with classes := graph.classes ++ [c] }

def withEnum (graph : SourceGraph) (e : SourceEnum) : SourceGraph :=
  { graph with enums := graph.enums ++ [e] }

/-- The graph with an application, which replaces an earlier one. -/
def withRest (graph : SourceGraph) (application : Application) : SourceGraph :=
  { graph with rest := some application }

end SourceGraph

end Typings
