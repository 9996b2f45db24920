import Typings.Digraph
import Typings.Source.Basic

/-!
# Class hierarchies

## Main definitions

* `SourceGraph.children`: the classes that extend or implement an entity.
* `SourceGraph.selfAndDescendants`: an entity with everything below it, depth first.
-/

namespace Typings.SourceGraph

/-- The classes that extend or implement an entity, each once, in the order of the graph. -/
def children (graph : SourceGraph) (entity : String) : List String :=
  ((graph.classes.filter (·.supertypeNames.contains entity)).map (·.name)).eraseDups

/-- The entities that are extended or implemented, with their children. -/
def hierarchy (graph : SourceGraph) : Digraph String where
  nodes := graph.classes.flatMap (·.supertypeNames)
  successors := graph.children

/-- An entity and everything below it, each entity once, depth first and from left to right. -/
def selfAndDescendants (graph : SourceGraph) (entity : String) : List String :=
  graph.hierarchy.preorder [entity]

end Typings.SourceGraph
