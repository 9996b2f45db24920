import Typings.Digraph
import Typings.Source.Basic

/-!
# Cyclic pulls

A property that pulls is replaced by the properties of the class that it points to. Classes that
pull from each other in a cycle cannot be expanded.

## Main definitions

* `PullEdge`, `SourceGraph.pullEdges`: which class pulls from which, and by which property.
* `PullCycle`: a cycle of pulls, as it is reported.
* `SourceGraph.pullCycle?`: a cycle of the graph, if there is one.
-/

namespace Typings

/-- A property of one class that pulls from another class. -/
structure PullEdge where
  source : String
  target : String
  property : String
  deriving Repr, DecidableEq, Inhabited

/-- A cycle of pulls: a class, one of its pulling properties, and the classes along the cycle, which
starts and ends with that class. -/
structure PullCycle where
  declaration : String
  property : String
  cycle : List String
  deriving Repr, DecidableEq, Inhabited

/-- The entries of a list whose value does not come again. -/
def lastOccurrences {α : Type} [DecidableEq α] : List α → List α
  | [] => []
  | a :: rest => if a ∈ rest then lastOccurrences rest else a :: lastOccurrences rest

namespace SourceGraph

/-- The class that a pulling property points to, whether it is declared or not. -/
def pullTarget? (property : SourceProperty) : Option String :=
  if property.pull.isSome then property.type.nullableName? else none

/-- The pulls between declared classes, in the order of the graph. -/
def pullEdges (graph : SourceGraph) : List PullEdge :=
  let names := graph.classes.map (·.name)
  graph.classes.flatMap fun c =>
    c.properties.filterMap fun p =>
      match pullTarget? p with
      | some target => if target ∈ names then some ⟨c.name, target, p.name⟩ else none
      | none => none

/-- The classes with the classes that they pull from. A repeated name counts where it is last. -/
def pullGraph (graph : SourceGraph) : Digraph String where
  nodes := lastOccurrences (graph.classes.map (·.name))
  successors name := (graph.pullEdges.filter (·.source == name)).map (·.target)

/-- Follows the latest pulls within a component from a class, up to the first class that comes
again. -/
def followPulls (edges : List PullEdge) (component seen : List String) (current : String) :
    List PullEdge :=
  match edges.reverse.find? fun edge =>
    edge.source == current && component.contains edge.target with
  | none => []
  | some edge =>
    if _again : edge.target ∈ component ∧ edge.target ∉ seen then
      edge :: followPulls edges component (edge.target :: seen) edge.target
    else [edge]
termination_by unseen component seen
decreasing_by exact unseen_cons_lt _again.1 _again.2

/-- A cycle of pulls, if there is one. The property that is reported is the first one along the
cycle that has a name. -/
def pullCycle? (graph : SourceGraph) : Option PullCycle :=
  let edges := graph.pullEdges
  let pulls := graph.pullGraph
  match pulls.cyclicNode? (Digraph.predecessorsOf (edges.map fun e => (e.source, e.target))) with
  | none => none
  | some start =>
    let steps := followPulls edges (pulls.component start) [start] start
    some
      { declaration := start
        property := ((steps.map (·.property)).find? (· ≠ "")).getD ""
        cycle := start :: steps.map (·.target) }

end SourceGraph

end Typings
