import Mathlib.Data.List.Nodup

/-!
# Distinct entries

Symbols, keys and literals are collected without repetitions. Of equal entries the first one is
kept, so that the order of a collection is that of the first occurrences.

## Main definitions

* `FirstBefore`: an entry occurs in a list before another one does.
* `IsDistinct`: a list has the entries of another one without repetitions.

## Main results

* `isDistinct_eraseDups`: what is left when repetitions are erased.
-/

namespace Typings

section First

variable {α : Type} {as : List α} {a b c : α}

/-- Whether an entry occurs in a list before any occurrence of another one. -/
def FirstBefore (as : List α) (a b : α) : Prop :=
  ∃ before after, as = before ++ a :: after ∧ b ∉ before

theorem firstBefore_head (as : List α) (a b : α) : FirstBefore (a :: as) a b :=
  ⟨[], as, rfl, List.not_mem_nil⟩

theorem FirstBefore.cons (h : FirstBefore as a b) (hne : b ≠ c) : FirstBefore (c :: as) a b := by
  obtain ⟨before, after, rfl, hb⟩ := h
  exact ⟨c :: before, after, rfl, List.not_mem_cons_of_ne_of_not_mem hne hb⟩

/-- What is left out between two entries does not change their order. -/
theorem FirstBefore.of_filter {p : α → Bool} (h : FirstBefore (as.filter p) a b) (hp : p b = true) :
    FirstBefore as a b := by
  obtain ⟨before, after, hsplit, hb⟩ := h
  obtain ⟨kept, rest, rfl, rfl, hrest⟩ := List.filter_eq_append_iff.mp hsplit
  obtain ⟨skipped, after, rfl, hskipped, -, -⟩ := List.filter_eq_cons_iff.mp hrest
  refine ⟨kept ++ skipped, after, (List.append_assoc ..).symm, fun hmem => ?_⟩
  rcases List.mem_append.mp hmem with hmem | hmem
  · exact hb (List.mem_filter.mpr ⟨hmem, hp⟩)
  · exact hskipped b hmem hp

end First

/-- Whether the second list has the entries of the first one, each once, in the order in which they
first occur. -/
structure IsDistinct {α : Type} (as bs : List α) : Prop where
  nodup : bs.Nodup
  mem_iff (a : α) : a ∈ bs ↔ a ∈ as
  ordered : bs.Pairwise (FirstBefore as)

variable {α : Type} [BEq α] [LawfulBEq α]

theorem nodup_eraseDups (as : List α) : as.eraseDups.Nodup := by
  cases as with
  | nil => exact List.nodup_nil
  | cons a rest =>
    rw [List.eraseDups_cons, List.nodup_cons]
    constructor
    · intro hmem
      have hkept := List.mem_filter.mp (List.mem_eraseDups.mp hmem)
      simp at hkept
    · exact nodup_eraseDups (rest.filter fun b => !b == a)
termination_by as.length
decreasing_by exact Nat.lt_succ_of_le (List.length_filter_le _ _)

/-- An entry at the end is kept if it is new. -/
theorem eraseDups_concat [DecidableEq α] (as : List α) (a : α) :
    (as ++ [a]).eraseDups = if a ∈ as then as.eraseDups else as.eraseDups ++ [a] := by
  rw [List.eraseDups_append]
  by_cases h : a ∈ as
  · simp [h, List.removeAll]
  · simp [h, List.removeAll, List.eraseDups_cons]

theorem pairwise_eraseDups (as : List α) : as.eraseDups.Pairwise (FirstBefore as) := by
  cases as with
  | nil => exact List.Pairwise.nil
  | cons a rest =>
    rw [List.eraseDups_cons]
    refine List.pairwise_cons.mpr ⟨fun b _ => firstBefore_head rest a b, ?_⟩
    refine (pairwise_eraseDups (rest.filter fun b => !b == a)).imp_of_mem fun _ hb hbefore => ?_
    have hkept := (List.mem_filter.mp (List.mem_eraseDups.mp hb)).2
    exact (hbefore.of_filter hkept).cons (by simpa using hkept)
termination_by as.length
decreasing_by exact Nat.lt_succ_of_le (List.length_filter_le _ _)

theorem isDistinct_eraseDups (as : List α) : IsDistinct as as.eraseDups where
  nodup := nodup_eraseDups as
  mem_iff _ := List.mem_eraseDups
  ordered := pairwise_eraseDups as

end Typings
