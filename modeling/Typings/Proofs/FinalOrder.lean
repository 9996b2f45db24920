import Mathlib.Logic.Relation
import Typings.Proofs.Model.Order
import Typings.Proofs.StableSort

/-!
# The final order

Data declarations are written in the order of the model, or by category and name, except that a
declaration is written after its parent. Parents may form cycles, and several declarations may have
one symbol; every declaration is still written once.

Positions are ordered one after the other. The lineage of a position leads up to the first ancestor
that was ordered before, so the ancestors of a position are in place when its own turn comes.

## Main definitions

* `IsStableSort`: a list is another one, stably sorted.
* `IsParent`: one position is that of the parent of the declaration at another one.
* `ParentsFirst`: an order of positions deviates from their own order only to put parents first.

## Main results

* `parentsFirst_parentFirst`: the computed order of positions is such an order.
* `Model.exists_parentsFirst_order`: an ordered model has the declarations of the model in such an
  order, then its aliases, then its enums.
-/

namespace Typings

open Relation
open scoped List

/-! ## Stable sorting -/

/-- Whether a list is another one in order, where entries that may stand on either side of each
other keep their order. -/
structure IsStableSort {α : Type} (le : α → α → Bool) (as sorted : List α) : Prop where
  perm : sorted.Perm as
  pairwise : sorted.Pairwise fun a b => le a b = true
  stable : ∀ a, sorted.filter (fun b => le b a && le a b) = as.filter fun b => le b a && le a b

theorem isStableSort_mergeSort {α : Type} {le : α → α → Bool}
    (htrans : ∀ a b c, le a b = true → le b c = true → le a c = true)
    (htotal : ∀ a b, (le a b || le b a) = true) (as : List α) :
    IsStableSort le as (as.mergeSort le) where
  perm := List.mergeSort_perm as le
  pairwise := List.pairwise_mergeSort htrans htotal as
  stable a := by
    apply filter_mergeSort htrans htotal
    intro b c hb hc
    exact htrans b a c (Bool.and_eq_true_iff.mp hb).1 (Bool.and_eq_true_iff.mp hc).2

namespace SortMode

/-- Whether declarations of one kind are those of another list, sorted if the mode sorts
declarations. -/
def Sorts {α : Type} (mode : SortMode) (le : α → α → Bool) (as sorted : List α) : Prop :=
  if mode = .full then IsStableSort le as sorted else sorted = as

/-- Whether a declaration is another one up to the order of its properties, which are sorted by name
unless the mode sorts nothing. -/
def Arranges (mode : SortMode) (d arranged : DataDeclaration) : Prop :=
  arranged = { d with properties := arranged.properties } ∧
    if mode = .unsorted then arranged.properties = d.properties
    else IsStableSort (fun p q => p.name ≤ q.name) d.properties arranged.properties

theorem arranges_arrange (mode : SortMode) (d : DataDeclaration) :
    mode.Arranges d (mode.arrange d) := by
  unfold Arranges arrange
  split
  · exact ⟨rfl, rfl⟩
  · refine ⟨rfl, isStableSort_mergeSort (fun p q r hpq hqr => ?_) (fun p q => ?_) d.properties⟩
    · exact decide_eq_true (String.le_trans (of_decide_eq_true hpq) (of_decide_eq_true hqr))
    · rw [Bool.or_eq_true, decide_eq_true_eq, decide_eq_true_eq]
      exact String.le_total p.name q.name

end SortMode

/-! ## Parents -/

/-- Whether the declaration at a position refers to the one at another position as its parent. Of
the declarations with the symbol of the parent it is the first. -/
def IsParent (data : List DataDeclaration) (child parent : Nat) : Prop :=
  ∃ d p symbol, data[child]? = some d ∧ d.parent.bind (·.referenced?) = some symbol ∧
    data[parent]? = some p ∧ p.symbol = symbol ∧
    ∀ i q, i < parent → data[i]? = some q → q.symbol ≠ symbol

section Positions

variable {data : List DataDeclaration} {visited : List Nat} {i position : Nat}

theorem isParent_iff {child parent : Nat} :
    IsParent data child parent ↔ parentPosition? data child = some parent := by
  unfold IsParent parentPosition?
  simp only [Option.bind_eq_some_iff, List.findIdx?_eq_some_iff_getElem]
  constructor
  · rintro ⟨d, p, symbol, hd, hsymbol, hp, hfirst, hothers⟩
    obtain ⟨hlt, rfl⟩ := List.getElem?_eq_some_iff.mp hp
    refine ⟨symbol, ⟨d, hd, hsymbol⟩, hlt, beq_iff_eq.mpr hfirst, fun j hj heq => ?_⟩
    exact hothers j _ hj (List.getElem?_eq_getElem (Nat.lt_trans hj hlt)) (beq_iff_eq.mp heq)
  · rintro ⟨symbol, ⟨d, hd, hsymbol⟩, hlt, hfirst, hothers⟩
    refine ⟨d, data[parent], symbol, hd, hsymbol, List.getElem?_eq_getElem hlt,
      beq_iff_eq.mp hfirst, ?_⟩
    intro j q hj hq heq
    obtain ⟨hjlt, rfl⟩ := List.getElem?_eq_some_iff.mp hq
    exact hothers j hj (beq_iff_eq.mpr heq)

/-- A lineage goes up from parent to parent. -/
theorem pairwise_lineage (data : List DataDeclaration) (visited : List Nat) (position : Nat) :
    (lineage data visited position).Pairwise (TransGen (IsParent data)) ∧
      ∀ i ∈ lineage data visited position, ReflTransGen (IsParent data) position i := by
  induction visited, position using lineage.induct data with
  | case1 visited position hagain =>
    rw [lineage_of_mem hagain]
    exact ⟨.nil, fun i hi => absurd hi List.not_mem_nil⟩
  | case2 visited position hnew hnone =>
    rw [lineage_of_none hnew hnone, List.forall_mem_singleton]
    exact ⟨List.pairwise_singleton _ _, .refl⟩
  | case3 visited position hnew parent hfound ih =>
    obtain ⟨hpairwise, hreach⟩ := ih
    have hparent : IsParent data position parent := isParent_iff.mpr hfound
    rw [lineage_of_some hnew hfound, List.pairwise_cons, List.forall_mem_cons]
    refine ⟨⟨fun i hi => ?_, hpairwise⟩, .refl, fun i hi => ?_⟩
    · exact TransGen.head' hparent (hreach i hi)
    · exact ReflTransGen.head hparent (hreach i hi)

/-- The parent of a position comes further up the lineage, or the walk met it before: on this
lineage or earlier. -/
theorem parent_mem_of_lineage {front back : List Nat} {parent : Nat}
    (hsplit : lineage data visited position = front ++ i :: back)
    (hparent : IsParent data i parent) :
    parent ∈ back ∨ parent ∈ visited ∨ parent ∈ front ++ [i] := by
  induction visited, position using lineage.induct data generalizing front with
  | case1 visited position hagain =>
    rw [lineage_of_mem hagain] at hsplit
    simp at hsplit
  | case2 visited position hnew hnone =>
    rw [lineage_of_none hnew hnone, List.singleton_eq_append_iff] at hsplit
    rcases hsplit with ⟨-, hsplit⟩ | ⟨-, hsplit⟩
    · obtain ⟨rfl, -⟩ := List.cons.inj hsplit
      cases hnone.symm.trans (isParent_iff.mp hparent)
    · cases hsplit
  | case3 visited position hnew next hfound ih =>
    rw [lineage_of_some hnew hfound] at hsplit
    cases front with
    | nil =>
      obtain ⟨rfl, rfl⟩ := List.cons.inj hsplit
      obtain rfl : next = parent := Option.some.inj (hfound.symm.trans (isParent_iff.mp hparent))
      by_cases hmet : next ∈ position :: visited
      · rcases List.mem_cons.mp hmet with rfl | hmet
        · exact .inr (.inr List.mem_cons_self)
        · exact .inr (.inl hmet)
      · exact .inl (mem_lineage hmet)
    | cons first front =>
      obtain ⟨rfl, hrest⟩ := List.cons.inj hsplit
      rcases ih hrest with hback | hvisited | hfront
      · exact .inl hback
      · rcases List.mem_cons.mp hvisited with rfl | hvisited
        · exact .inr (.inr List.mem_cons_self)
        · exact .inr (.inl hvisited)
      · exact .inr (.inr (List.mem_cons_of_mem _ hfront))

/-- A position that is not its own ancestor has its parent further up its lineage or before it. -/
theorem parent_above_of_lineage {parent : Nat} (hi : i ∈ lineage data visited position)
    (hparent : IsParent data i parent) (hcycle : ¬TransGen (IsParent data) i i) :
    parent ∈ visited ∨ [i, parent] <+ lineage data visited position := by
  obtain ⟨front, back, hsplit⟩ := List.append_of_mem hi
  have hup := (pairwise_lineage data visited position).1
  rw [hsplit] at hup ⊢
  rcases parent_mem_of_lineage hsplit hparent with hback | hvisited | hfront
  · refine .inr ((List.cons_sublist_cons.mpr ?_).trans (List.sublist_append_right front _))
    exact List.singleton_sublist.mpr hback
  · exact .inl hvisited
  · refine absurd ?_ hcycle
    rcases List.mem_append.mp hfront with hbelow | hself
    · have hdown := (List.pairwise_append.mp hup).2.2 parent hbelow i List.mem_cons_self
      exact TransGen.head hparent hdown
    · obtain rfl := List.mem_singleton.mp hself
      exact .single hparent

end Positions

/-! ## Positions in turn -/

/-- The order of positions when the turns of the first ones are over. -/
def orderedUpTo (data : List DataDeclaration) (turns : Nat) : List Nat :=
  (List.range turns).foldl
    (fun ordered position => ordered ++ (lineage data ordered position).reverse) []

section Turns

variable (data : List DataDeclaration)

/-- A turn adds a lineage, from its top down. -/
theorem orderedUpTo_succ (turns : Nat) :
    orderedUpTo data (turns + 1) =
      orderedUpTo data turns ++ (lineage data (orderedUpTo data turns) turns).reverse := by
  unfold orderedUpTo
  rw [List.range_succ, List.foldl_append]
  rfl

theorem orderedUpTo_prefix {turns later : Nat} (h : turns ≤ later) :
    orderedUpTo data turns <+: orderedUpTo data later := by
  induction h with
  | refl => exact List.prefix_rfl
  | @step later _ ih =>
    rw [orderedUpTo_succ]
    exact ih.trans (List.prefix_append _ _)

theorem mem_orderedUpTo_succ (position : Nat) : position ∈ orderedUpTo data (position + 1) := by
  rw [orderedUpTo_succ, List.mem_append, List.mem_reverse]
  by_cases h : position ∈ orderedUpTo data position
  · exact .inl h
  · exact .inr (mem_lineage h)

/-- What is in order had its turn, or is an ancestor of what had its turn. -/
theorem exists_turn_of_mem_orderedUpTo {turns i : Nat} (h : i ∈ orderedUpTo data turns) :
    ∃ k < turns, ReflTransGen (IsParent data) k i := by
  induction turns with
  | zero => exact absurd h List.not_mem_nil
  | succ turns ih =>
    rw [orderedUpTo_succ, List.mem_append, List.mem_reverse] at h
    rcases h with h | h
    · obtain ⟨k, hk, hreach⟩ := ih h
      exact ⟨k, Nat.lt_succ_of_lt hk, hreach⟩
    · exact ⟨turns, Nat.lt_succ_self turns, (pairwise_lineage data _ turns).2 i h⟩

/-- A position that is not its own ancestor comes after its parent as soon as it is in order. -/
theorem parent_sublist_orderedUpTo {turns i parent : Nat} (hi : i ∈ orderedUpTo data turns)
    (hparent : IsParent data i parent) (hcycle : ¬TransGen (IsParent data) i i) :
    [parent, i] <+ orderedUpTo data turns := by
  induction turns with
  | zero => exact absurd hi List.not_mem_nil
  | succ turns ih =>
    rw [orderedUpTo_succ]
    rw [orderedUpTo_succ, List.mem_append, List.mem_reverse] at hi
    rcases hi with hi | hi
    · exact (ih hi).trans (List.sublist_append_left _ _)
    · rcases parent_above_of_lineage hi hparent hcycle with hbefore | habove
      · exact (List.singleton_sublist.mpr hbefore).append
          (List.singleton_sublist.mpr (List.mem_reverse.mpr hi))
      · exact (List.Sublist.reverse habove).trans (List.sublist_append_right _ _)

end Turns

/-- Every position of a list has an entry. -/
theorem forall₂_getElem? {α : Type} {as : List α} {positions : List Nat}
    (h : ∀ position ∈ positions, position < as.length) :
    List.Forall₂ (fun position a => as[position]? = some a) positions
      (positions.filterMap (as[·]?)) := by
  induction positions with
  | nil => exact .nil
  | cons position positions ih =>
    obtain ⟨hfirst, hrest⟩ := List.forall_mem_cons.mp h
    have hentry : as[position]? = some as[position] := List.getElem?_eq_getElem hfirst
    rw [List.filterMap_cons_some hentry]
    exact .cons hentry (ih hrest)

/-- Whether an order of the positions of declarations has every position once, puts a declaration
after its parent unless it is its own ancestor, and puts a later position before an earlier one only
if it is an ancestor of that one or of one before it. -/
structure ParentsFirst (data : List DataDeclaration) (order : List Nat) : Prop where
  perm : order.Perm (List.range data.length)
  parent : ∀ {child parent : Nat}, IsParent data child parent →
    ¬TransGen (IsParent data) child child → [parent, child] <+ order
  forced : ∀ {i j : Nat}, i < j → [j, i] <+ order → ∃ k ≤ i, TransGen (IsParent data) k j

/-- The computed order of positions puts parents first and changes no more than that takes. -/
theorem parentsFirst_parentFirst (data : List DataDeclaration) :
    ParentsFirst data (parentFirst data) where
  perm := perm_parentFirst data
  parent {child parent} hparent hcycle := by
    have hchild : child < data.length := lt_length_of_parentPosition? (isParent_iff.mp hparent)
    have hmem : child ∈ parentFirst data :=
      (perm_parentFirst data).mem_iff.mpr (List.mem_range.mpr hchild)
    exact parent_sublist_orderedUpTo data hmem hparent hcycle
  forced {i j} hlt hbefore := by
    have hperm := perm_parentFirst data
    have hi : i < data.length :=
      List.mem_range.mp
        (hperm.mem_iff.mp (hbefore.subset (List.mem_cons_of_mem _ List.mem_cons_self)))
    obtain ⟨rest, hrest⟩ := orderedUpTo_prefix data (Nat.succ_le_of_lt hi)
    have horder : parentFirst data = orderedUpTo data (i + 1) ++ rest := hrest.symm
    have hnodup : (orderedUpTo data (i + 1) ++ rest).Nodup :=
      horder ▸ hperm.nodup_iff.mpr List.nodup_range
    rw [horder] at hbefore
    have hj : j ∈ orderedUpTo data (i + 1) := by
      obtain ⟨front, back, hpair, hfront, hback⟩ := List.sublist_append_iff.mp hbefore
      cases front with
      | nil =>
        obtain rfl : [j, i] = back := hpair
        have hi' : i ∈ rest := hback.subset (List.mem_cons_of_mem _ List.mem_cons_self)
        exact absurd rfl ((List.nodup_append.mp hnodup).2.2 i (mem_orderedUpTo_succ data i) i hi')
      | cons first front =>
        obtain ⟨rfl, -⟩ := List.cons.inj hpair
        exact hfront.subset List.mem_cons_self
    obtain ⟨k, hk, hreach⟩ := exists_turn_of_mem_orderedUpTo data hj
    refine ⟨k, Nat.le_of_lt_succ hk, ?_⟩
    rcases reflTransGen_iff_eq_or_transGen.mp hreach with rfl | hreach
    · omega
    · exact hreach

/-- A declaration waits for its parent, which comes last; two others are the parents of each
other. -/
example : parentFirst
    [{ symbol := ⟨0⟩, parent := some (.bare ⟨3⟩) }, { symbol := ⟨1⟩, parent := some (.bare ⟨2⟩) },
      { symbol := ⟨2⟩, parent := some (.bare ⟨1⟩) }, { symbol := ⟨3⟩ }] = [3, 0, 2, 1] := by
  cbv

/-! ## Models -/

namespace Model

variable (names : Names) (mode : SortMode) (model : Model)

theorem sorts_data_sorted :
    mode.Sorts (DataDeclaration.le names) (model.data.map mode.arrange)
      (model.sorted names mode).data := by
  unfold SortMode.Sorts
  cases mode with
  | unsorted => exact (List.map_id' _).symm
  | propertiesOnly => rfl
  | full => exact isStableSort_mergeSort DataDeclaration.le_trans DataDeclaration.le_total _

theorem isStableSort_mergeSort_symbol {α : Type} (symbol : α → Symbol) (as : List α) :
    IsStableSort (fun a b => names.le (symbol a) (symbol b)) as
      (as.mergeSort fun a b => names.le (symbol a) (symbol b)) :=
  isStableSort_mergeSort (fun a b c => Names.le_trans (symbol a) (symbol b) (symbol c))
    (fun a b => Names.le_total (symbol a) (symbol b)) as

theorem sorts_aliases_sorted :
    mode.Sorts (fun a b => names.le a.symbol b.symbol) model.aliases
      (model.sorted names mode).aliases := by
  unfold SortMode.Sorts
  cases mode with
  | unsorted | propertiesOnly => rfl
  | full => exact isStableSort_mergeSort_symbol names AliasDeclaration.symbol _

theorem sorts_enums_sorted :
    mode.Sorts (fun a b => names.le a.symbol b.symbol) model.enums
      (model.sorted names mode).enums := by
  unfold SortMode.Sorts
  cases mode with
  | unsorted | propertiesOnly => rfl
  | full => exact isStableSort_mergeSort_symbol names EnumDeclaration.symbol _

/-- An ordered model has the data declarations of the model with their properties arranged, sorted
and then put in an order that has parents first, followed by its aliases and its enums. -/
theorem exists_parentsFirst_order :
    ∃ arranged data order written aliases enums,
      List.Forall₂ mode.Arranges model.data arranged ∧
      mode.Sorts (DataDeclaration.le names) arranged data ∧
      ParentsFirst data order ∧
      List.Forall₂ (fun position d => data[position]? = some d) order written ∧
      mode.Sorts (fun a b => names.le a.symbol b.symbol) model.aliases aliases ∧
      mode.Sorts (fun a b => names.le a.symbol b.symbol) model.enums enums ∧
      (model.order names mode).declarations =
        written.map .ofData ++ aliases.map .ofAlias ++ enums.map .ofEnum := by
  have harranged : List.Forall₂ mode.Arranges model.data (model.data.map mode.arrange) := by
    rw [List.forall₂_map_right_iff]
    exact List.forall₂_same.mpr fun d _ => mode.arranges_arrange d
  have hpositions : ∀ position ∈ parentFirst (model.sorted names mode).data,
      position < (model.sorted names mode).data.length := fun position hposition =>
    List.mem_range.mp ((perm_parentFirst _).mem_iff.mp hposition)
  exact ⟨_, _, _, _, _, _, harranged, model.sorts_data_sorted names mode,
    parentsFirst_parentFirst _, forall₂_getElem? hpositions, model.sorts_aliases_sorted names mode,
    model.sorts_enums_sorted names mode, rfl⟩

end Model

end Typings
