import Mathlib.Data.List.Basic

/-!
# Enumerations

A walk names what it meets by the way to it: the position of every step. It goes from left to right,
so it meets everything in the order of the ways, and each thing once.

## Main definitions

* `EnumeratesBy`: a list of all entries with a property, in the order of their ways.
-/

namespace Typings

variable {α : Type} {way : α → List Nat} {xs ys : List α} {P Q : α → Prop}

/-- Whether a list has the entries with a property, each once, in the order of their ways. -/
def EnumeratesBy (way : α → List Nat) (xs : List α) (P : α → Prop) : Prop :=
  xs.Pairwise (fun x y => way x < way y) ∧ ∀ x, x ∈ xs ↔ P x

namespace EnumeratesBy

theorem congr (h : EnumeratesBy way xs P) (hiff : ∀ x, P x ↔ Q x) : EnumeratesBy way xs Q :=
  ⟨h.1, fun x => (h.2 x).trans (hiff x)⟩

theorem singleton (x : α) : EnumeratesBy way [x] (· = x) :=
  ⟨List.pairwise_singleton _ _, fun _ => List.mem_singleton⟩

theorem append (hxs : EnumeratesBy way xs P) (hys : EnumeratesBy way ys Q)
    (hlt : ∀ x y, P x → Q y → way x < way y) : EnumeratesBy way (xs ++ ys) fun x => P x ∨ Q x := by
  refine ⟨List.pairwise_append.mpr ⟨hxs.1, hys.1, fun x hx y hy => ?_⟩, fun x => ?_⟩
  · exact hlt x y ((hxs.2 x).mp hx) ((hys.2 y).mp hy)
  · rw [List.mem_append, hxs.2 x, hys.2 x]

/-- A step that keeps the order of ways leads from one enumeration to another one. -/
theorem map {f : α → α} (h : EnumeratesBy way xs P)
    (hf : ∀ x y, way x < way y → way (f x) < way (f y)) :
    EnumeratesBy way (xs.map f) fun x => ∃ y, P y ∧ f y = x := by
  refine ⟨List.pairwise_map.mpr (h.1.imp (hf _ _)), fun x => ?_⟩
  rw [List.mem_map]
  exact exists_congr fun y => and_congr_left fun _ => h.2 y

end EnumeratesBy

end Typings
