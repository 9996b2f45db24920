import Mathlib
import Typings.Proofs.Digraph
import Typings.Source.Hierarchy

/-!
# Descendants of an entity

The walk over what is below an entity keeps a stack of what is left to visit. An entity may stand on
it several times, and it is marked only when it is taken off. Nevertheless the walk lists what a
recursive walk lists that marks an entity as soon as it enters it: the stack holds the values that
the recursive calls in progress have still to go through.

## Main definitions

* `Digraph.Visits`: what a recursive walk lists, and the marks that it leaves.
* `SourceGraph.Below`: a class has an entity for a supertype.

## Main results

* `Digraph.visits_preorder_iff`: a walk with a stack lists what the recursive walk lists.
* `SourceGraph.mem_selfAndDescendants_iff`: what is below an entity.
* `SourceGraph.preorder_selfAndDescendants`: an entity and its descendants are listed in preorder.
-/

namespace Typings

open Relation

namespace Digraph

variable {α : Type}

/-- What a recursive walk lists that visits values from left to right, and its marks before and
after. A marked value is passed over. Any other value is marked when it is entered, listed, and
followed by what is listed below it. -/
inductive Visits (next : α → List α) : Set α → List α → List α → Set α → Prop
  | done (marked : Set α) : Visits next marked [] [] marked
  | pass {marked marked' : Set α} {a : α} {rest listed : List α} (ha : a ∈ marked)
      (hrest : Visits next marked rest listed marked') :
        Visits next marked (a :: rest) listed marked'
  | enter {marked between marked' : Set α} {a : α} {rest below listed : List α} (ha : a ∉ marked)
      (hbelow : Visits next (insert a marked) (next a) below between)
      (hrest : Visits next between rest listed marked') :
      Visits next marked (a :: rest) (a :: (below ++ listed)) marked'

namespace Visits

variable {next : α → List α} {marked marked' marked'' : Set α} {values rest listed listed' : List α}

/-- A walk lists the same and leaves the same marks each time. -/
theorem unique (h : Visits next marked values listed marked')
    (h' : Visits next marked values listed' marked'') : listed' = listed ∧ marked'' = marked' := by
  induction h generalizing listed' marked'' with
  | done => cases h'; exact ⟨rfl, rfl⟩
  | pass ha _ ih =>
    cases h' with
    | pass _ hrest => exact ih hrest
    | enter hnew _ _ => exact absurd ha hnew
  | enter hnew _ _ ihbelow ihrest =>
    cases h' with
    | pass ha _ => exact absurd ha hnew
    | enter _ hbelow hrest =>
      obtain ⟨rfl, rfl⟩ := ihbelow hbelow
      obtain ⟨rfl, rfl⟩ := ihrest hrest
      exact ⟨rfl, rfl⟩

/-- Values in a row are visited one part after the other. -/
theorem exists_of_append (h : Visits next marked (values ++ rest) listed marked') :
    ∃ first between second, listed = first ++ second ∧ Visits next marked values first between ∧
      Visits next between rest second marked' := by
  induction values generalizing marked listed with
  | nil => exact ⟨[], marked, listed, rfl, .done marked, h⟩
  | cons a values ih =>
    cases h with
    | pass ha hvalues =>
      obtain ⟨first, between, second, rfl, hfirst, hsecond⟩ := ih hvalues
      exact ⟨first, between, second, rfl, .pass ha hfirst, hsecond⟩
    | @enter _ _ _ _ _ below _ ha hbelow hvalues =>
      obtain ⟨first, between, second, rfl, hfirst, hsecond⟩ := ih hvalues
      exact ⟨a :: (below ++ first), between, second, by simp, .enter ha hbelow hfirst, hsecond⟩

theorem subset (h : Visits next marked values listed marked') : marked ⊆ marked' := by
  induction h with
  | done => exact subset_rfl
  | pass _ _ ih => exact ih
  | enter _ _ _ ihbelow ihrest => exact (Set.subset_insert _ _).trans (ihbelow.trans ihrest)

/-- Values that are marked need not be visited. -/
theorem of_filter {p : α → Bool} (hmarked : ∀ a, p a = false → a ∈ marked)
    (h : Visits next marked (values.filter p) listed marked') :
    Visits next marked values listed marked' := by
  induction values generalizing marked listed with
  | nil => exact h
  | cons a values ih =>
    cases ha : p a with
    | false =>
      rw [List.filter_cons_of_neg (by simp [ha])] at h
      exact .pass (hmarked a ha) (ih hmarked h)
    | true =>
      rw [List.filter_cons_of_pos ha] at h
      cases h with
      | pass ha hrest => exact .pass ha (ih hmarked hrest)
      | enter ha hbelow hrest =>
        refine .enter ha hbelow (ih (fun b hb => hbelow.subset ?_) hrest)
        exact Set.mem_insert_of_mem a (hmarked b hb)

end Visits

variable [DecidableEq α] {graph : Digraph α} {seen stack : List α}

/-- A walk with a stack lists what the recursive walk lists, from any marks. -/
theorem exists_visits_preorderFrom (graph : Digraph α) (seen stack : List α) :
    ∃ marked, Visits graph.next {a | a ∈ seen} stack (graph.preorderFrom seen stack) marked := by
  induction seen, stack using preorderFrom.induct graph with
  | case1 seen =>
    rw [preorderFrom]
    exact ⟨_, .done _⟩
  | case2 seen a stack hnew ih =>
    obtain ⟨marked, hvisits⟩ := ih
    obtain ⟨below, between, rest, hlisted, hbelow, hrest⟩ := hvisits.exists_of_append
    replace hbelow := hbelow.of_filter fun b hb => not_not.mp (decide_eq_false_iff_not.mp hb)
    have hmarked : {b | b ∈ a :: seen} = insert a {b | b ∈ seen} := by
      ext b
      simp
    rw [preorderFrom, dif_pos hnew, hlisted]
    rw [hmarked] at hbelow
    exact ⟨marked, .enter hnew hbelow hrest⟩
  | case3 seen a stack hold ih =>
    obtain ⟨marked, hvisits⟩ := ih
    rw [preorderFrom, dif_neg hold]
    exact ⟨marked, .pass (not_not.mp hold) hvisits⟩

/-- A walk with a stack lists what the recursive walk lists. -/
theorem visits_preorder_iff {starts listed : List α} :
    (∃ marked, Visits graph.next ∅ starts listed marked) ↔ listed = graph.preorder starts := by
  have hvisits := exists_visits_preorderFrom graph [] starts
  rw [show {a : α | a ∈ ([] : List α)} = ∅ by simp] at hvisits
  obtain ⟨marked, hvisits⟩ := hvisits
  constructor
  · rintro ⟨marked', hvisits'⟩
    exact (hvisits.unique hvisits').1
  · rintro rfl
    exact ⟨marked, hvisits⟩

/-- A walk lists nothing twice, and nothing that it has entered before. -/
theorem nodup_preorderFrom (graph : Digraph α) (seen stack : List α) :
    (graph.preorderFrom seen stack).Nodup ∧ ∀ a ∈ graph.preorderFrom seen stack, a ∉ seen := by
  induction seen, stack using preorderFrom.induct graph with
  | case1 seen => simp [preorderFrom]
  | case2 seen a stack hnew ih =>
    rw [preorderFrom, dif_pos hnew]
    obtain ⟨hnodup, hseen⟩ := ih
    refine ⟨List.nodup_cons.mpr ⟨fun ha => hseen a ha List.mem_cons_self, hnodup⟩, ?_⟩
    exact List.forall_mem_cons.mpr ⟨hnew, fun b hb hb' => hseen b hb (List.mem_cons_of_mem _ hb')⟩
  | case3 seen a stack hold ih =>
    rw [preorderFrom, dif_neg hold]
    exact ih

theorem head?_preorder (graph : Digraph α) (a : α) : (graph.preorder [a]).head? = some a := by
  rw [preorder, preorderFrom, dif_pos List.not_mem_nil, List.head?_cons]

end Digraph

namespace SourceGraph

variable {graph : SourceGraph} {a b : String}

/-- Whether a class of the second name extends or implements the first entity. -/
def Below (graph : SourceGraph) (a b : String) : Prop :=
  ∃ c ∈ graph.classes, c.name = b ∧ a ∈ c.supertypeNames

theorem mem_children_iff : b ∈ graph.children a ↔ graph.Below a b := by
  simp [children, Below, and_left_comm, and_comm]

/-- The nodes of the hierarchy are the entities with children, so nothing is cut off. -/
theorem next_hierarchy (graph : SourceGraph) : graph.hierarchy.next = graph.children := by
  funext a
  unfold Digraph.next
  split
  case isTrue => rfl
  case isFalse hnode =>
    refine (List.eq_nil_iff_forall_not_mem.mpr fun b hb => hnode ?_).symm
    obtain ⟨c, hc, -, ha⟩ := mem_children_iff.mp hb
    exact List.mem_flatMap.mpr ⟨c, hc, ha⟩

theorem edge_hierarchy_iff : graph.hierarchy.Edge a b ↔ graph.Below a b := by
  rw [Digraph.Edge, next_hierarchy, mem_children_iff]

/-- The walk over an entity and its descendants meets what is transitively below the entity. -/
theorem mem_selfAndDescendants_iff :
    b ∈ graph.selfAndDescendants a ↔ ReflTransGen graph.Below a b := by
  have hedge : graph.hierarchy.Edge = graph.Below := by
    funext a b
    exact propext edge_hierarchy_iff
  rw [selfAndDescendants, Digraph.mem_preorder_iff, hedge]

/-- An entity and its descendants, as they are listed: the entity comes first, nothing comes twice,
and what is listed is what is reached through children, in the order of the recursive walk over
them. -/
theorem preorder_selfAndDescendants (graph : SourceGraph) (entity : String) :
    (graph.selfAndDescendants entity).head? = some entity ∧
    (graph.selfAndDescendants entity).Nodup ∧
    (∀ e, e ∈ graph.selfAndDescendants entity ↔
      ReflTransGen (fun a b => b ∈ graph.children a) entity e) ∧
    ∀ listed, (∃ marked, Digraph.Visits graph.children ∅ [entity] listed marked) ↔
      listed = graph.selfAndDescendants entity := by
  refine ⟨Digraph.head?_preorder _ entity, (Digraph.nodup_preorderFrom _ [] [entity]).1,
    fun e => ?_, fun listed => ?_⟩
  · simp only [mem_selfAndDescendants_iff, mem_children_iff]
  · rw [← next_hierarchy]
    exact Digraph.visits_preorder_iff

/-- A diamond with a way back to its top: what is met twice is listed where it is entered first. -/
example :
    let extending (name : String) (supertypes : List String) : SourceClass :=
      { name, interfaces := supertypes.map (.named · []) }
    let graph : SourceGraph := { classes := [extending "Top" ["Bottom"], extending "Left" ["Top"],
      extending "Right" ["Top"], extending "Bottom" ["Right", "Left"]] }
    graph.selfAndDescendants "Top" = ["Top", "Left", "Bottom", "Right"] := by
  cbv

end SourceGraph

end Typings
