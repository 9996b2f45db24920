import Typings.Proofs.Digraph
import Typings.Source.Pulls

/-!
# Which pulls are cyclic

## Main results

* `SourceGraph.pullCycle?_eq_none_iff`: a cycle of pulls is found exactly if there is one.
* `SourceGraph.pullCycle?_eq_none_perm`: the order of the classes makes no difference to that.
-/

namespace Typings

theorem mem_lastOccurrences {α : Type} [DecidableEq α] {a : α} {as : List α} :
    a ∈ lastOccurrences as ↔ a ∈ as := by
  induction as with
  | nil => rfl
  | cons b as ih =>
    rw [lastOccurrences, List.mem_cons]
    split
    case isTrue hmem =>
      rw [ih, or_iff_right_of_imp]
      rintro rfl
      exact hmem
    case isFalse => rw [List.mem_cons, ih]

namespace SourceGraph

variable (graph : SourceGraph)

/-- Whether one class has a property that pulls from another one. -/
def PullsFrom (a b : String) : Prop :=
  ∃ c ∈ graph.classes, c.name = a ∧ b ∈ graph.classes.map (·.name) ∧
    ∃ p ∈ c.properties, pullTarget? p = some b

/-- Whether one class has a property of the given name that pulls from another one. -/
def PullsBy (property a b : String) : Prop :=
  ∃ c ∈ graph.classes, c.name = a ∧ b ∈ graph.classes.map (·.name) ∧
    ∃ p ∈ c.properties, p.name = property ∧ pullTarget? p = some b

variable {graph} {a b : String}

theorem PullsBy.pullsFrom {property : String} (h : graph.PullsBy property a b) :
    graph.PullsFrom a b := by
  obtain ⟨c, hc, hname, hdeclared, p, hp, -, htarget⟩ := h
  exact ⟨c, hc, hname, hdeclared, p, hp, htarget⟩

theorem PullsFrom.exists_pullsBy (h : graph.PullsFrom a b) :
    ∃ property, graph.PullsBy property a b := by
  obtain ⟨c, hc, hname, hdeclared, p, hp, htarget⟩ := h
  exact ⟨p.name, c, hc, hname, hdeclared, p, hp, rfl, htarget⟩

theorem mem_pullEdges_iff {e : PullEdge} :
    e ∈ graph.pullEdges ↔ graph.PullsBy e.property e.source e.target := by
  constructor
  · intro he
    obtain ⟨c, hc, he⟩ := List.mem_flatMap.mp he
    obtain ⟨p, hp, he⟩ := List.mem_filterMap.mp he
    split at he
    case h_1 target htarget =>
      obtain ⟨hmem, heq⟩ := Option.ite_none_right_eq_some.mp he
      obtain rfl := Option.some.inj heq
      exact ⟨c, hc, rfl, hmem, p, hp, rfl, htarget⟩
    case h_2 => exact nomatch he
  · rintro ⟨c, hc, hname, hmem, p, hp, hproperty, htarget⟩
    refine List.mem_flatMap.mpr ⟨c, hc, List.mem_filterMap.mpr ⟨p, hp, ?_⟩⟩
    rw [htarget]
    exact (if_pos hmem).trans (by rw [hname, hproperty])

theorem exists_pullEdge_iff :
    (∃ e ∈ graph.pullEdges, e.source = a ∧ e.target = b) ↔ graph.PullsFrom a b := by
  constructor
  · rintro ⟨e, he, rfl, rfl⟩
    exact (mem_pullEdges_iff.mp he).pullsFrom
  · intro h
    obtain ⟨property, hpulls⟩ := h.exists_pullsBy
    exact ⟨⟨a, b, property⟩, mem_pullEdges_iff.mpr hpulls, rfl, rfl⟩

theorem mem_nodes_pullGraph : a ∈ graph.pullGraph.nodes ↔ a ∈ graph.classes.map (·.name) :=
  mem_lastOccurrences

theorem edge_pullGraph_iff : graph.pullGraph.Edge a b ↔ graph.PullsFrom a b := by
  rw [Digraph.Edge, Digraph.next, ← exists_pullEdge_iff]
  have hsuccessor : b ∈ graph.pullGraph.successors a ↔
      ∃ e ∈ graph.pullEdges, e.source = a ∧ e.target = b := by
    simp [pullGraph, and_assoc]
  split
  case isTrue => exact hsuccessor
  case isFalse hnode =>
    refine iff_of_false List.not_mem_nil fun h => hnode ?_
    obtain ⟨c, hc, rfl, -⟩ := exists_pullEdge_iff.mp h
    exact mem_nodes_pullGraph.mpr (List.mem_map_of_mem hc)

theorem edge_pullGraph : graph.pullGraph.Edge = graph.PullsFrom := by
  funext a b
  exact propext edge_pullGraph_iff

theorem mem_predecessorsOf_pullEdges (a b : String) :
    a ∈ Digraph.predecessorsOf (graph.pullEdges.map fun e => (e.source, e.target)) b ↔
      graph.pullGraph.Edge a b := by
  rw [edge_pullGraph_iff, ← exists_pullEdge_iff]
  refine Iff.trans ?_ (exists_congr fun e => and_congr_right fun _ => and_comm)
  simp [Digraph.predecessorsOf, and_assoc]

/-- A cycle of pulls is found exactly if there is one. -/
theorem pullCycle?_eq_none_iff : graph.pullCycle? = none ↔ graph.pullGraph.Acyclic := by
  have hnodes : ∀ a b, graph.pullGraph.Edge a b → b ∈ graph.pullGraph.nodes := by
    intro a b hedge
    obtain ⟨-, -, -, hmem, -⟩ := edge_pullGraph_iff.mp hedge
    exact mem_nodes_pullGraph.mpr hmem
  rw [← Digraph.cyclicNode?_eq_none_iff mem_predecessorsOf_pullEdges hnodes]
  unfold pullCycle?
  dsimp only
  split
  case h_1 hnone => simp [hnone]
  case h_2 start hsome => simp [hsome]

/-- The order of the classes makes no difference to whether pulls are cyclic. -/
theorem pullCycle?_eq_none_perm {graph' : SourceGraph} (h : graph.classes.Perm graph'.classes) :
    graph.pullCycle? = none ↔ graph'.pullCycle? = none := by
  have hpulls : ∀ a b, graph.PullsFrom a b ↔ graph'.PullsFrom a b := by
    intro a b
    unfold PullsFrom
    simp only [h.mem_iff, (h.map (·.name)).mem_iff]
  have hsame : graph.PullsFrom = graph'.PullsFrom := by
    funext a b
    exact propext (hpulls a b)
  rw [pullCycle?_eq_none_iff, pullCycle?_eq_none_iff, Digraph.Acyclic, Digraph.Acyclic,
    edge_pullGraph, edge_pullGraph, hsame]

end SourceGraph

end Typings
