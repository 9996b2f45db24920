import Mathlib.Data.List.Nodup
import Mathlib.Logic.Relation
import Typings.Digraph

/-!
# Cycles of directed graphs

A walk over a graph without cycles leaves every node after all its successors. So the order in which
it leaves the nodes tells whether there is a cycle, wherever the walk starts and in whatever order
it visits the successors of a node. An edge against that order belongs to a cycle.

A walk is described by its stack: the nodes above one that is still to be left are reached from it,
and each of its successors was left before or is still above it.

## Main definitions

* `Digraph.Acyclic`: no node is reached from itself.
* `Digraph.Pending`: what the stack of a walk is like.

## Main results

* `Digraph.nodup_postorder`, `Digraph.mem_postorder`: a walk leaves every node once.
* `Digraph.transGen_of_postorder`: a successor that a walk leaves later reaches the node.
* `Digraph.transGen_of_cyclicNode?`: the node that is found is on a cycle.
* `Digraph.cyclicNode?_eq_none_iff`: a cyclic node is found exactly if there is a cycle.
* `Digraph.mem_component_iff`: a component holds the nodes that reach each other.
-/

namespace Typings.Digraph

open Relation

variable {α : Type}

/-! ## Nodes on the stack -/

/-- Every node that was entered was left or is still to be left. -/
def Entered (seen left : List α) (stack : List (Step α)) : Prop :=
  ∀ a ∈ seen, a ∈ left ∨ .leave a ∈ stack

/-- The nodes that are still to be left. -/
def open? : Step α → Option α
  | .enter _ => none
  | .leave a => some a

section Stack

variable {seen left : List α} {stack : List (Step α)} {a b : α}

theorem leave_mem_of_enter_cons (h : .leave b ∈ Step.enter a :: stack) : .leave b ∈ stack := by
  simpa using h

theorem Entered.nil (stack : List (Step α)) : Entered [] [] stack :=
  fun _ h => absurd h List.not_mem_nil

/-- Entering a node adds it to those that are still to be left. -/
theorem Entered.enter (h : Entered seen left (.enter a :: stack)) (steps : List (Step α)) :
    Entered (a :: seen) left (steps ++ .leave a :: stack) := by
  intro b hb
  rcases List.mem_cons.mp hb with rfl | hb
  · exact .inr (List.mem_append_right _ List.mem_cons_self)
  · refine (h b hb).imp_right fun hmem => ?_
    exact List.mem_append_right _ (List.mem_cons_of_mem _ (leave_mem_of_enter_cons hmem))

theorem Entered.leave (h : Entered seen left (.leave a :: stack)) :
    Entered seen (a :: left) stack := by
  intro b hb
  rcases h b hb with hmem | hmem
  · exact .inl (List.mem_cons_of_mem _ hmem)
  · rcases List.mem_cons.mp hmem with heq | hmem
    · obtain rfl := Step.leave.inj heq
      exact .inl List.mem_cons_self
    · exact .inr hmem

theorem Entered.skip (h : Entered seen left (.enter a :: stack)) : Entered seen left stack :=
  fun b hb => (h b hb).imp_right leave_mem_of_enter_cons

theorem filterMap_open?_enter (as : List α) :
    (as.map Step.enter ++ stack).filterMap open? = stack.filterMap open? := by
  rw [List.filterMap_append, List.filterMap_map]
  have hnone : open? ∘ Step.enter = fun _ : α => none := rfl
  rw [hnone, List.filterMap_none, List.nil_append]

end Stack

/-! ## Walks -/

variable [DecidableEq α] (graph : Digraph α)

/-- Whether one node is a successor of another. -/
def Edge (a b : α) : Prop := b ∈ graph.next a

/-- No node is reached from itself. -/
def Acyclic : Prop := ∀ a, ¬TransGen graph.Edge a a

variable {graph} {seen left above : List α} {stack : List (Step α)} {a b : α}

theorem mem_nodes_of_edge (h : graph.Edge a b) : a ∈ graph.nodes := by
  by_contra hmem
  rw [Edge, next, if_neg hmem] at h
  exact List.not_mem_nil h

theorem mem_unseenNext : b ∈ graph.unseenNext seen a ↔ graph.Edge a b ∧ b ∉ seen := by
  rw [unseenNext, List.mem_filter, decide_eq_true_iff]
  rfl

theorem mem_preorderFrom {starts : List α} (h : a ∈ starts) :
    a ∈ seen ∨ a ∈ graph.preorderFrom seen starts := by
  induction seen, starts using preorderFrom.induct graph with
  | case1 seen => exact absurd h List.not_mem_nil
  | case2 seen b stack hnew ih =>
    rw [preorderFrom, dif_pos hnew]
    rcases List.mem_cons.mp h with rfl | h
    · exact .inr List.mem_cons_self
    · rcases ih (List.mem_append_right _ h) with hmem | hmem
      · rcases List.mem_cons.mp hmem with rfl | hmem
        · exact .inr List.mem_cons_self
        · exact .inl hmem
      · exact .inr (List.mem_cons_of_mem _ hmem)
  | case3 seen b stack hseen ih =>
    rw [preorderFrom, dif_neg hseen]
    rcases List.mem_cons.mp h with rfl | h
    · exact .inl (not_not.mp hseen)
    · exact ih h

theorem mem_preorder_nodes (h : a ∈ graph.nodes) : a ∈ graph.preorder graph.nodes :=
  (mem_preorderFrom h).resolve_left List.not_mem_nil

/-- Whatever is on the stack is left in the end. -/
theorem mem_postorderFrom (hentered : Entered seen left stack)
    (h : .enter a ∈ stack ∨ .leave a ∈ stack) : a ∈ left ∨ a ∈ graph.postorderFrom seen stack := by
  induction seen, stack using postorderFrom.induct graph generalizing left with
  | case1 seen => exact absurd h (by simp)
  | case2 seen b stack ih =>
    rw [postorderFrom]
    by_cases hab : a = b
    · exact .inr (hab ▸ List.mem_cons_self)
    · have hrest : .enter a ∈ stack ∨ .leave a ∈ stack := by simpa [hab] using h
      rcases ih hentered.leave hrest with hmem | hmem
      · exact .inl ((List.mem_cons.mp hmem).resolve_left hab)
      · exact .inr (List.mem_cons_of_mem _ hmem)
  | case3 seen b stack hnew ih =>
    rw [postorderFrom, dif_pos hnew]
    refine ih (hentered.enter _) ?_
    by_cases hab : a = b
    · simp [hab]
    · have hrest : .enter a ∈ stack ∨ .leave a ∈ stack := by simpa [hab] using h
      rcases hrest with hrest | hrest <;> simp [hrest]
  | case4 seen b stack hseen ih =>
    rw [postorderFrom, dif_neg hseen]
    by_cases hab : a = b
    · rcases hentered b (not_not.mp hseen) with hmem | hmem
      · exact .inl (hab ▸ hmem)
      · exact ih hentered.skip (Or.inr (hab ▸ leave_mem_of_enter_cons hmem))
    · exact ih hentered.skip (by simpa [hab] using h)

theorem mem_postorder (h : a ∈ graph.nodes) : a ∈ graph.postorder :=
  (mem_postorderFrom (.nil _) (Or.inl (List.mem_map_of_mem h))).resolve_left List.not_mem_nil

/-- A node is left at most once: it is on the stack, or it is still to be entered. -/
theorem nodup_postorderFrom (hseen : stack.filterMap open? ⊆ seen)
    (hnodup : (stack.filterMap open?).Nodup) :
    (graph.postorderFrom seen stack).Nodup ∧
      ∀ a ∈ graph.postorderFrom seen stack, a ∈ stack.filterMap open? ∨ a ∉ seen := by
  induction seen, stack using postorderFrom.induct graph with
  | case1 seen =>
    rw [postorderFrom]
    exact ⟨List.nodup_nil, fun a h => absurd h List.not_mem_nil⟩
  | case2 seen b stack ih =>
    rw [postorderFrom]
    obtain ⟨hb, hnodup⟩ := List.nodup_cons.mp hnodup
    obtain ⟨hbseen, hseen⟩ := List.cons_subset.mp hseen
    obtain ⟨hout, hmem⟩ := ih hseen hnodup
    refine ⟨List.nodup_cons.mpr ⟨fun h => ?_, hout⟩, fun a ha => ?_⟩
    · exact (hmem b h).elim hb fun hnew => hnew hbseen
    · rcases List.mem_cons.mp ha with rfl | ha
      · exact .inl List.mem_cons_self
      · exact (hmem a ha).imp_left (List.mem_cons_of_mem _)
  | case3 seen b stack hnew ih =>
    rw [postorderFrom, dif_pos hnew]
    have hopen : ((graph.next b).map Step.enter ++ .leave b :: stack).filterMap open? =
        b :: stack.filterMap open? := filterMap_open?_enter _
    rw [hopen] at ih
    obtain ⟨hout, hmem⟩ := ih (List.cons_subset_cons b hseen)
      (List.nodup_cons.mpr ⟨fun h => hnew (hseen h), hnodup⟩)
    refine ⟨hout, fun a ha => ?_⟩
    rcases hmem a ha with ha | ha
    · rcases List.mem_cons.mp ha with rfl | ha
      · exact .inr hnew
      · exact .inl ha
    · exact .inr fun h => ha (List.mem_cons_of_mem _ h)
  | case4 seen b stack hold ih =>
    rw [postorderFrom, dif_neg hold]
    exact ih hseen hnodup

theorem nodup_postorder : graph.postorder.Nodup := by
  have hopen : (graph.nodes.map Step.enter ++ []).filterMap open? = [] := filterMap_open?_enter _
  rw [List.append_nil] at hopen
  refine (nodup_postorderFrom ?_ ?_).1
  · rw [hopen]
    exact List.nil_subset _
  · rw [hopen]
    exact List.nodup_nil

/-! ## The order in which nodes are left -/

variable (graph) in
/-- What the stack of a walk is like, below the given nodes: for a node that is still to be left,
every successor was left or is above it, and everything above it is reached from it. -/
def Pending (left : List α) : List α → List (Step α) → Prop
  | _, [] => True
  | above, .enter a :: stack => Pending left (a :: above) stack
  | above, .leave a :: stack =>
    (∀ b ∈ graph.next a, b ∈ left ∨ b ∈ above) ∧ (∀ b ∈ above, TransGen graph.Edge a b) ∧
      Pending left (a :: above) stack

namespace Pending

theorem mono {left' above' : List α} (h : Pending graph left above stack)
    (hkept : ∀ b, b ∈ left ∨ b ∈ above → b ∈ left' ∨ b ∈ above')
    (hreach : ∀ a, (∀ b ∈ above, TransGen graph.Edge a b) → ∀ b ∈ above', TransGen graph.Edge a b) :
    Pending graph left' above' stack := by
  induction stack generalizing above above' with
  | nil => trivial
  | cons step stack ih =>
    have hkept' : ∀ s b, b ∈ left ∨ b ∈ s :: above → b ∈ left' ∨ b ∈ s :: above' := by
      intro s b hb
      rw [List.mem_cons, or_left_comm] at hb ⊢
      exact hb.imp_right (hkept b)
    have hreach' : ∀ s a, (∀ b ∈ s :: above, TransGen graph.Edge a b) →
        ∀ b ∈ s :: above', TransGen graph.Edge a b := by
      intro s a hall
      obtain ⟨hs, hall⟩ := List.forall_mem_cons.mp hall
      exact List.forall_mem_cons.mpr ⟨hs, hreach a hall⟩
    cases step with
    | enter s => exact ih h (hkept' s) (hreach' s)
    | leave s =>
      obtain ⟨hnext, habove, hrest⟩ := h
      exact ⟨fun b hb => hkept b (hnext b hb), hreach s habove, ih hrest (hkept' s) (hreach' s)⟩

theorem enter_append (as : List α) (h : Pending graph left (as.reverse ++ above) stack) :
    Pending graph left above (as.map Step.enter ++ stack) := by
  induction as generalizing above with
  | nil => exact h
  | cons a as ih =>
    rw [List.reverse_cons, List.append_assoc] at h
    exact ih h

/-- What stands above a node is reached from it. -/
theorem transGen (h : Pending graph left above stack) (ha : .leave a ∈ stack) (hb : b ∈ above) :
    TransGen graph.Edge a b := by
  induction stack generalizing above with
  | nil => exact absurd ha List.not_mem_nil
  | cons step stack ih =>
    cases step with
    | enter s => exact ih h (leave_mem_of_enter_cons ha) (List.mem_cons_of_mem _ hb)
    | leave s =>
      rcases List.mem_cons.mp ha with heq | ha
      · obtain rfl := Step.leave.inj heq
        exact h.2.1 b hb
      · exact ih h.2.2 ha (List.mem_cons_of_mem _ hb)

theorem enter (h : Pending graph left [] (.enter a :: stack)) :
    Pending graph left [] ((graph.next a).map .enter ++ .leave a :: stack) := by
  have hedge : ∀ b ∈ (graph.next a).reverse ++ [], graph.Edge a b := by
    intro b hb
    rwa [List.append_nil, List.mem_reverse] at hb
  have habove : Pending graph left [a] stack := h
  refine enter_append _ ⟨fun b hb => ?_, fun b hb => .single (hedge b hb), ?_⟩
  · exact .inr (by simpa using hb)
  · refine habove.mono (fun b hb => hb.imp_right fun hmem => ?_) fun c hall b hb => ?_
    · exact List.mem_singleton.mp hmem ▸ List.mem_cons_self
    · have hca : TransGen graph.Edge c a := hall a (List.mem_singleton_self a)
      rcases List.mem_cons.mp hb with rfl | hb
      · exact hca
      · exact hca.tail (hedge b hb)

theorem leave (h : Pending graph left [] (.leave a :: stack)) :
    Pending graph (a :: left) [] stack :=
  h.2.2.mono (fun b hb => Or.inl (by simpa [or_comm] using hb)) fun _ _ _ hb =>
    absurd hb List.not_mem_nil

theorem skip (h : Pending graph left [] (.enter a :: stack)) (ha : a ∈ left) :
    Pending graph left [] stack := by
  have habove : Pending graph left [a] stack := h
  refine habove.mono (fun b hb => Or.inl ?_) fun _ _ _ hb => absurd hb List.not_mem_nil
  exact hb.elim id fun hmem => List.mem_singleton.mp hmem ▸ ha

end Pending

variable {before after order : List α} {predecessors : α → List α}

/-- A successor that is left after a node is the node itself or reaches it. -/
theorem transGen_of_postorderFrom (hentered : Entered seen left stack)
    (hopen : stack.filterMap open? ⊆ seen) (hpending : Pending graph seen [] stack)
    (hsplit : graph.postorderFrom seen stack = before ++ a :: after) (hb : b ∈ graph.next a)
    (hleft : b ∉ left) (hbefore : b ∉ before) : b = a ∨ TransGen graph.Edge b a := by
  induction seen, stack using postorderFrom.induct graph generalizing left before with
  | case1 seen =>
    rw [postorderFrom] at hsplit
    simp at hsplit
  | case2 seen s stack ih =>
    rw [postorderFrom] at hsplit
    have hs : s ∈ seen := hopen List.mem_cons_self
    cases before with
    | nil =>
      obtain ⟨rfl, -⟩ := List.cons.inj hsplit
      have hseen : b ∈ seen := (hpending.1 b hb).resolve_right List.not_mem_nil
      rcases List.mem_cons.mp ((hentered b hseen).resolve_left hleft) with heq | hmem
      · exact .inl (Step.leave.inj heq)
      · exact .inr (hpending.2.2.transGen hmem List.mem_cons_self)
    | cons first before =>
      obtain ⟨rfl, hrest⟩ := List.cons.inj hsplit
      obtain ⟨hne, hbefore⟩ := List.ne_and_not_mem_of_not_mem_cons hbefore
      refine ih hentered.leave (List.cons_subset.mp hopen).2 (hpending.leave.mono ?_ ?_)
        hrest ?_ hbefore
      · rintro c (hc | hc)
        · exact .inl ((List.mem_cons.mp hc).elim (fun heq => heq ▸ hs) id)
        · exact .inr hc
      · exact fun _ _ _ hc => absurd hc List.not_mem_nil
      · exact List.not_mem_cons_of_ne_of_not_mem hne hleft
  | case3 seen s stack hnew ih =>
    rw [postorderFrom, dif_pos hnew] at hsplit
    have hsteps : ((graph.next s).map Step.enter ++ .leave s :: stack).filterMap open? =
        s :: stack.filterMap open? := filterMap_open?_enter _
    refine ih (hentered.enter _) ?_ (hpending.enter.mono ?_ ?_) hsplit hleft hbefore
    · rw [hsteps]
      exact List.cons_subset_cons s hopen
    · exact fun c hc => hc.imp_left (List.mem_cons_of_mem s)
    · exact fun _ _ _ hc => absurd hc List.not_mem_nil
  | case4 seen s stack hold ih =>
    rw [postorderFrom, dif_neg hold] at hsplit
    exact ih hentered.skip hopen (hpending.skip (not_not.mp hold)) hsplit hleft hbefore

/-- In the order in which a walk leaves the nodes, a successor that comes after a node is the node
itself or reaches it. -/
theorem transGen_of_postorder (hsplit : graph.postorder = before ++ a :: after)
    (hb : b ∈ graph.next a) (hbefore : b ∉ before) : b = a ∨ TransGen graph.Edge b a := by
  have hopen : (graph.nodes.map Step.enter ++ []).filterMap open? = [] := filterMap_open?_enter _
  have hpending : Pending graph [] [] (graph.nodes.map Step.enter ++ []) :=
    .enter_append graph.nodes trivial
  rw [List.append_nil] at hopen hpending
  refine transGen_of_postorderFrom (.nil _) ?_ hpending hsplit hb List.not_mem_nil hbefore
  rw [hopen]
  exact List.nil_subset _

theorem idxOf_lt_idxOf_of_mem (hsplit : order = before ++ b :: after) (hfirst : b ∉ before)
    (ha : a ∈ before) : order.idxOf a < order.idxOf b := by
  rw [hsplit, List.idxOf_append_of_mem ha, List.idxOf_append_of_notMem hfirst]
  exact Nat.lt_of_lt_of_le (List.idxOf_lt_length_of_mem ha) (Nat.le_add_right _ _)

/-- Where the search finds nothing, no edge leads to a node from one further on. -/
theorem mem_of_backwardFrom?_eq_none {passed : List α} {p : α}
    (h : backwardFrom? predecessors passed order = none) (hsplit : order = before ++ a :: after)
    (hp : p ∈ predecessors a) : p = a ∨ p ∈ passed ∨ p ∈ before := by
  induction order generalizing passed before with
  | nil => simp at hsplit
  | cons first rest ih =>
    rw [backwardFrom?] at h
    split at h
    case h_1 => cases h
    case h_2 hfind =>
      cases before with
      | nil =>
        obtain ⟨rfl, -⟩ := List.cons.inj hsplit
        have hpassed : p ∈ first :: passed := by
          by_contra hnew
          exact List.find?_eq_none.mp hfind p hp (decide_eq_true hnew)
        exact (List.mem_cons.mp hpassed).imp_right Or.inl
      | cons b before =>
        obtain ⟨rfl, hrest⟩ := List.cons.inj hsplit
        have hcases := ih h hrest
        simp only [List.mem_cons] at hcases ⊢
        tauto

/-- Where edges lead forward in a list there is no cycle. -/
theorem acyclic_of_idxOf (order : List α)
    (h : ∀ a b, graph.Edge a b → order.idxOf a < order.idxOf b) : graph.Acyclic := by
  have hlt : ∀ a b, TransGen graph.Edge a b → order.idxOf a < order.idxOf b := by
    intro a b hab
    induction hab with
    | single hedge => exact h _ _ hedge
    | tail _ hedge ih => exact Nat.lt_trans ih (h _ _ hedge)
  exact fun a haa => Nat.lt_irrefl _ (hlt a a haa)

theorem exists_of_backwardFrom? {passed : List α} {p : α}
    (h : backwardFrom? predecessors passed order = some p) :
    ∃ before a after, order = before ++ a :: after ∧ p ∈ predecessors a ∧ p ≠ a ∧ p ∉ passed ∧
      p ∉ before := by
  induction order generalizing passed with
  | nil => exact absurd h (by simp [backwardFrom?])
  | cons first rest ih =>
    rw [backwardFrom?] at h
    split at h
    case h_1 q hfind =>
      obtain rfl := Option.some.inj h
      have hnew : q ∉ first :: passed := by simpa using List.find?_some hfind
      obtain ⟨hne, hpassed⟩ := List.ne_and_not_mem_of_not_mem_cons hnew
      exact ⟨[], first, rest, rfl, List.mem_of_find?_eq_some hfind, hne, hpassed, List.not_mem_nil⟩
    case h_2 =>
      obtain ⟨before, a, after, rfl, hp, hne, hpassed, hbefore⟩ := ih h
      obtain ⟨hfirst, hpassed⟩ := List.ne_and_not_mem_of_not_mem_cons hpassed
      exact ⟨first :: before, a, after, rfl, hp, hne, hpassed,
        List.not_mem_cons_of_ne_of_not_mem hfirst hbefore⟩

/-- The node that is found is on a cycle. -/
theorem transGen_of_cyclicNode? (hpredecessors : ∀ a b, a ∈ predecessors b ↔ graph.Edge a b)
    (h : graph.cyclicNode? predecessors = some a) : TransGen graph.Edge a a := by
  unfold cyclicNode? at h
  split at h
  case h_1 b hfind =>
    obtain rfl := Option.some.inj h
    have hself : b ∈ graph.next b := by simpa using List.find?_some hfind
    exact .single hself
  case h_2 =>
    obtain ⟨before, b, after, hsplit, hp, hne, -, hbefore⟩ := exists_of_backwardFrom? h
    have hedge := (hpredecessors a b).mp hp
    have hmem : a ∈ before ++ b :: after :=
      hsplit ▸ List.mem_reverse.mpr (mem_postorder (mem_nodes_of_edge hedge))
    have hafter : a ∈ after := by
      rcases List.mem_append.mp hmem with hmem | hmem
      · exact absurd hmem hbefore
      · exact (List.mem_cons.mp hmem).resolve_left hne
    obtain ⟨early, late, hlate⟩ := List.append_of_mem (List.mem_reverse.mpr hafter)
    have horder : graph.postorder = early ++ a :: (late ++ b :: before.reverse) := by
      rw [← List.reverse_reverse graph.postorder, hsplit, List.reverse_append, List.reverse_cons,
        hlate]
      simp
    have hb : b ∉ early := by
      have hnodup : (early ++ a :: (late ++ b :: before.reverse)).Nodup := horder ▸ nodup_postorder
      exact fun hb => (List.nodup_append.mp hnodup).2.2 b hb b (by simp) rfl
    rcases transGen_of_postorder horder hedge hb with heq | hreach
    · exact absurd heq.symm hne
    · exact hreach.head hedge

/-- A cyclic node is found exactly if there is a cycle. -/
theorem cyclicNode?_eq_none_iff (hpredecessors : ∀ a b, a ∈ predecessors b ↔ graph.Edge a b)
    (hnodes : ∀ a b, graph.Edge a b → b ∈ graph.nodes) :
    graph.cyclicNode? predecessors = none ↔ graph.Acyclic := by
  constructor
  · intro h
    unfold cyclicNode? at h
    split at h
    case h_1 => cases h
    case h_2 hfind =>
      refine acyclic_of_idxOf graph.postorder.reverse fun a b hab => ?_
      obtain ⟨before, after, hsplit, hfirst⟩ := List.eq_append_cons_of_mem
        (List.mem_reverse.mpr (mem_postorder (hnodes a b hab)))
      refine idxOf_lt_idxOf_of_mem hsplit hfirst ?_
      rcases mem_of_backwardFrom?_eq_none h hsplit ((hpredecessors a b).mpr hab) with rfl | ha | ha
      · have hentered := mem_preorder_nodes (mem_nodes_of_edge hab)
        exact absurd (decide_eq_true (p := a ∈ graph.next a) hab)
          (List.find?_eq_none.mp hfind a hentered)
      · exact absurd ha List.not_mem_nil
      · exact ha
  · intro hacyclic
    rw [Option.eq_none_iff_forall_not_mem]
    exact fun a ha => hacyclic a (transGen_of_cyclicNode? hpredecessors ha)

/-! ## Components -/

/-- What a walk enters is reached from where it starts. -/
theorem exists_of_mem_preorderFrom {starts : List α} (h : b ∈ graph.preorderFrom seen starts) :
    ∃ a ∈ starts, ReflTransGen graph.Edge a b := by
  induction seen, starts using preorderFrom.induct graph with
  | case1 seen => exact absurd h (by simp [preorderFrom])
  | case2 seen a stack hnew ih =>
    rw [preorderFrom, dif_pos hnew] at h
    rcases List.mem_cons.mp h with rfl | h
    · exact ⟨b, List.mem_cons_self, .refl⟩
    · obtain ⟨c, hc, hreach⟩ := ih h
      rcases List.mem_append.mp hc with hc | hc
      · exact ⟨a, List.mem_cons_self, .head (mem_unseenNext.mp hc).1 hreach⟩
      · exact ⟨c, List.mem_cons_of_mem _ hc, hreach⟩
  | case3 seen a stack hold ih =>
    rw [preorderFrom, dif_neg hold] at h
    obtain ⟨c, hc, hreach⟩ := ih h
    exact ⟨c, List.mem_cons_of_mem _ hc, hreach⟩

/-- A walk enters the successors of what it enters. -/
theorem mem_preorderFrom_of_edge {starts : List α} (ha : a ∈ graph.preorderFrom seen starts)
    (hedge : graph.Edge a b) : b ∈ seen ∨ b ∈ graph.preorderFrom seen starts := by
  induction seen, starts using preorderFrom.induct graph with
  | case1 seen => exact absurd ha (by simp [preorderFrom])
  | case2 seen s stack hnew ih =>
    rw [preorderFrom, dif_pos hnew] at ha ⊢
    have hrest : b ∈ s :: seen ∨
        b ∈ graph.preorderFrom (s :: seen) (graph.unseenNext (s :: seen) s ++ stack) := by
      rcases List.mem_cons.mp ha with rfl | ha
      · by_cases hb : b ∈ a :: seen
        · exact .inl hb
        · exact mem_preorderFrom (List.mem_append_left _ (mem_unseenNext.mpr ⟨hedge, hb⟩))
      · exact ih ha
    rw [List.mem_cons] at hrest ⊢
    tauto
  | case3 seen s stack hold ih =>
    rw [preorderFrom, dif_neg hold] at ha ⊢
    exact ih ha

theorem mem_preorder_iff : b ∈ graph.preorder [a] ↔ ReflTransGen graph.Edge a b := by
  constructor
  · intro h
    obtain ⟨c, hc, hreach⟩ := exists_of_mem_preorderFrom h
    rwa [List.mem_singleton.mp hc] at hreach
  · intro h
    induction h with
    | refl => exact (mem_preorderFrom (List.mem_singleton_self a)).resolve_left List.not_mem_nil
    | tail _ hedge ih => exact (mem_preorderFrom_of_edge ih hedge).resolve_left List.not_mem_nil

/-- The component of a node holds the nodes that it reaches and that reach it. -/
theorem mem_component_iff :
    b ∈ graph.component a ↔ ReflTransGen graph.Edge a b ∧ ReflTransGen graph.Edge b a := by
  rw [component, List.mem_filter, decide_eq_true_iff, mem_preorder_iff, mem_preorder_iff]

end Typings.Digraph
