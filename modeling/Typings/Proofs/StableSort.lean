import Mathlib.Data.List.Perm.Basic

/-!
# Sorting lists that are permutations of each other

Sorting keeps the order of entries that may stand on either side of each other. Two lists that
differ only in the order of entries of which none may stand on either side of another have the same
sorted list.

## Main results

* `filter_mergeSort`: sorting keeps the order of such entries.
* `eq_of_pairwise_of_filter`: a sorted list is determined by the order of such entries.
* `mergeSort_append_perm`: the order of the other ones makes no difference.
-/

namespace Typings

variable {α : Type} {le : α → α → Bool}
  (htrans : ∀ a b c, le a b = true → le b c = true → le a c = true)
  (htotal : ∀ a b, (le a b || le b a) = true)

include htrans htotal

theorem filter_mergeSort {p : α → Bool} (hp : ∀ a b, p a = true → p b = true → le a b = true)
    (as : List α) : (as.mergeSort le).filter p = as.filter p := by
  have hpairwise : (as.filter p).Pairwise (le · ·) :=
    List.pairwise_of_forall_mem_list fun a ha b hb =>
      hp a b (List.of_mem_filter ha) (List.of_mem_filter hb)
  have hsublist := (List.sublist_mergeSort htrans htotal hpairwise List.filter_sublist).filter p
  simp only [List.filter_filter, Bool.and_self] at hsublist
  exact (hsublist.eq_of_length ((List.mergeSort_perm as le).filter p).length_eq.symm).symm

omit htrans in
theorem eq_of_pairwise_of_filter {as bs : List α} (ha : as.Pairwise (le · ·))
    (hb : bs.Pairwise (le · ·))
    (h : ∀ x, as.filter (fun a => le a x && le x a) = bs.filter fun a => le a x && le x a) :
    as = bs := by
  have hrefl : ∀ a, le a a = true := fun a => by simpa using htotal a a
  have hfilter : ∀ (a : α) (l : List α), a ∈ l ↔ a ∈ l.filter fun b => le b a && le a b :=
    fun a l => by simp [hrefl]
  induction as generalizing bs with
  | nil =>
    cases bs with
    | nil => rfl
    | cons b bs =>
      have hmem := (hfilter b (b :: bs)).mp List.mem_cons_self
      rw [← h b] at hmem
      exact absurd hmem List.not_mem_nil
  | cons a as ih =>
    have hmem : ∀ x, x ∈ a :: as ↔ x ∈ bs := fun x => by rw [hfilter x, hfilter x bs, h x]
    cases bs with
    | nil => exact absurd ((hmem a).mp List.mem_cons_self) List.not_mem_nil
    | cons b bs =>
      obtain ⟨hfirst, hrest⟩ := List.pairwise_cons.mp ha
      obtain ⟨hfirst', hrest'⟩ := List.pairwise_cons.mp hb
      have hab : le a b = true := by
        rcases List.mem_cons.mp ((hmem b).mpr List.mem_cons_self) with rfl | hmem
        · exact hrefl b
        · exact hfirst b hmem
      have hba : le b a = true := by
        rcases List.mem_cons.mp ((hmem a).mp List.mem_cons_self) with rfl | hmem
        · exact hrefl a
        · exact hfirst' a hmem
      obtain ⟨rfl, -⟩ : a = b ∧ _ := by simpa [List.filter_cons, hrefl, hab, hba] using h a
      refine congrArg (a :: ·) (ih hrest hrest' fun x => ?_)
      have hx := h x
      rw [List.filter_cons, List.filter_cons] at hx
      split at hx
      · exact (List.cons.inj hx).2
      · exact hx

/-- The order of entries of which none may stand on either side of another makes no difference. -/
theorem mergeSort_append_perm {as as' : List α} (bs : List α) (hperm : as.Perm as')
    (hanti : ∀ a ∈ as, ∀ b ∈ as, le a b = true → le b a = true → a = b) :
    (as ++ bs).mergeSort le = (as' ++ bs).mergeSort le := by
  refine eq_of_pairwise_of_filter htotal (List.pairwise_mergeSort htrans htotal _)
    (List.pairwise_mergeSort htrans htotal _) fun x => ?_
  have hboth : ∀ a b, (le a x && le x a) = true → (le b x && le x b) = true → le a b = true := by
    intro a b ha hb
    exact htrans a x b (Bool.and_eq_true_iff.mp ha).1 (Bool.and_eq_true_iff.mp hb).2
  have hequal : ∀ l : List α, l ⊆ as →
      (l.filter fun a => le a x && le x a).Pairwise (· = ·) := by
    intro l hl
    refine List.pairwise_of_forall_mem_list fun a ha b hb => ?_
    have hax := List.of_mem_filter ha
    have hbx := List.of_mem_filter hb
    exact hanti a (hl (List.mem_of_mem_filter ha)) b (hl (List.mem_of_mem_filter hb))
      (hboth a b hax hbx) (hboth b a hbx hax)
  rw [filter_mergeSort htrans htotal hboth, filter_mergeSort htrans htotal hboth,
    List.filter_append, List.filter_append,
    List.Perm.eq_of_pairwise (fun _ _ _ _ hab _ => hab) (hequal as (List.Subset.refl _))
      (hequal as' hperm.symm.subset) (hperm.filter _)]

end Typings
