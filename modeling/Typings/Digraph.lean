/-!
# Directed graphs

Depth-first walks over finite directed graphs. A walk keeps a stack of what is left to do and a list
of the nodes that it has entered, so it ends on cyclic graphs as well.

## Main definitions

* `Digraph`: a list of nodes with their successors.
* `Digraph.preorder`: the nodes in the order in which a walk enters them.
* `Digraph.postorder`: the nodes in the order in which a walk leaves them.
* `Digraph.cyclicNode?`: a node on a cycle, found by the order in which the nodes are left.
* `Digraph.component`: the nodes that are on a common cycle with a node.
-/

namespace Typings

/-- How many entries of a list are not among the given ones. -/
def unseen {α : Type} [DecidableEq α] : List α → List α → Nat
  | [], _ => 0
  | a :: rest, seen => (if a ∈ seen then 0 else 1) + unseen rest seen

theorem unseen_cons_le {α : Type} [DecidableEq α] (nodes seen : List α) (a : α) :
    unseen nodes (a :: seen) ≤ unseen nodes seen := by
  induction nodes with
  | nil => simp [unseen]
  | cons b rest ih =>
    simp only [unseen, List.mem_cons]
    split <;> split <;> simp_all
    omega

theorem unseen_cons_lt {α : Type} [DecidableEq α] {nodes seen : List α} {a : α}
    (mem : a ∈ nodes) (new : a ∉ seen) : unseen nodes (a :: seen) < unseen nodes seen := by
  induction nodes with
  | nil => simp at mem
  | cons b rest ih =>
    have le := unseen_cons_le rest seen a
    by_cases same : b = a
    · simp only [unseen, same, List.mem_cons_self, if_true, if_neg new]
      omega
    · have lt := ih ((List.mem_cons.mp mem).resolve_left fun h => same h.symm)
      simp only [unseen, List.mem_cons, same, false_or]
      omega

/-- A finite directed graph. -/
structure Digraph (α : Type) where
  nodes : List α
  successors : α → List α

namespace Digraph

variable {α : Type} [DecidableEq α]

/-- The successors of a node of the graph; other values have none. -/
def next (graph : Digraph α) (a : α) : List α :=
  if a ∈ graph.nodes then graph.successors a else []

/-- The successors of a node that were not entered. -/
def unseenNext (graph : Digraph α) (seen : List α) (a : α) : List α :=
  (graph.next a).filter fun b => decide (b ∉ seen)

/-- The nodes that a walk enters, in that order. The walk has entered `seen` and is to visit the
values on the stack. -/
def preorderFrom (graph : Digraph α) (seen : List α) : List α → List α
  | [] => []
  | a :: stack =>
    if _new : a ∉ seen then
      a :: preorderFrom graph (a :: seen) (graph.unseenNext (a :: seen) a ++ stack)
    else preorderFrom graph seen stack
termination_by stack => (unseen graph.nodes seen, stack.length)
decreasing_by
  · by_cases mem : a ∈ graph.nodes
    · exact Prod.Lex.left _ _ (unseen_cons_lt mem _new)
    · simp only [unseenNext, next, if_neg mem, List.filter_nil, List.nil_append]
      rcases Nat.lt_or_eq_of_le (unseen_cons_le graph.nodes seen a) with lt | eq
      · exact Prod.Lex.left _ _ lt
      · rw [eq]
        exact Prod.Lex.right _ (by simp)
  · exact Prod.Lex.right _ (by simp)

/-- The nodes that a walk from the given values enters. -/
def preorder (graph : Digraph α) (starts : List α) : List α :=
  preorderFrom graph [] starts

/-- A step that a walk has to do. -/
inductive Step (α : Type) where
  | enter (a : α)
  | leave (a : α)

/-- How much work a step stands for. -/
def Step.weight : Step α → Nat
  | enter _ => 2
  | leave _ => 1

/-- How much work is on a stack. -/
def weight : List (Step α) → Nat
  | [] => 0
  | step :: rest => step.weight + weight rest

/-- The nodes that a walk leaves, in that order. A node is left after its successors. -/
def postorderFrom (graph : Digraph α) (seen : List α) : List (Step α) → List α
  | [] => []
  | .leave a :: stack => a :: postorderFrom graph seen stack
  | .enter a :: stack =>
    if _new : a ∉ seen then
      postorderFrom graph (a :: seen) ((graph.next a).map .enter ++ .leave a :: stack)
    else postorderFrom graph seen stack
termination_by stack => (unseen graph.nodes seen, weight stack)
decreasing_by
  · exact Prod.Lex.right _ (by simp [weight, Step.weight])
  · by_cases mem : a ∈ graph.nodes
    · exact Prod.Lex.left _ _ (unseen_cons_lt mem _new)
    · simp only [next, if_neg mem, List.map_nil, List.nil_append]
      rcases Nat.lt_or_eq_of_le (unseen_cons_le graph.nodes seen a) with lt | eq
      · exact Prod.Lex.left _ _ lt
      · rw [eq]
        exact Prod.Lex.right _ (by simp [weight, Step.weight])
  · exact Prod.Lex.right _ (by simp [weight, Step.weight])

/-- The nodes of the graph in the order in which a walk over all of them leaves them. -/
def postorder (graph : Digraph α) : List α :=
  postorderFrom graph [] (graph.nodes.map .enter)

/-- Goes through an order of the nodes and finds the first node that is entered by an edge from a
node further on; the result is the first such predecessor. -/
def backwardFrom? (predecessors : α → List α) (passed : List α) : List α → Option α
  | [] => none
  | a :: rest =>
    match (predecessors a).find? fun p => decide (p ∉ a :: passed) with
    | some p => some p
    | none => backwardFrom? predecessors (a :: passed) rest

/-- The nodes with an edge to the given one, where `edges` are all edges of the graph. -/
def predecessorsOf (edges : List (α × α)) (a : α) : List α :=
  (edges.filter fun edge => decide (edge.2 = a)).map (·.1)

/-- A node on a cycle, if there is one: the first node that a walk enters and that is its own
successor, else a node with an edge that goes backward in the reverse postorder. -/
def cyclicNode? (graph : Digraph α) (predecessors : α → List α) : Option α :=
  match (graph.preorder graph.nodes).find? fun a => decide (a ∈ graph.next a) with
  | some a => some a
  | none => backwardFrom? predecessors [] graph.postorder.reverse

/-- The nodes that are reached from the given one and reach it. -/
def component (graph : Digraph α) (a : α) : List α :=
  (graph.preorder [a]).filter fun b => decide (a ∈ graph.preorder [b])

end Digraph

end Typings
