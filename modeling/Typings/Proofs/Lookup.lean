import Mathlib.Data.List.Nodup

/-!
# Lookups by key

Declarations are found by their symbol, by their source entity or by their name. Where only one
entry is looked for a lookup finds it wherever it stands. Where the keys are distinct that is so for
each key.

## Main results

* `find?_eq_some_iff_of_unique`, `find?_key_eq_some_iff`, `lookup_key_eq_some_iff`: what a lookup
  finds.
* `find?_perm_of_unique`, `find?_key_perm`: the order of the entries makes no difference to it.
-/

namespace Typings

section Unique

variable {α : Type} {entries entries' : List α} {p : α → Bool}

theorem find?_eq_some_iff_of_unique
    (hunique : ∀ a ∈ entries, ∀ b ∈ entries, p a = true → p b = true → a = b) {a : α} :
    entries.find? p = some a ↔ a ∈ entries ∧ p a = true := by
  constructor
  · intro hfound
    exact ⟨List.mem_of_find?_eq_some hfound, List.find?_some hfound⟩
  · rintro ⟨ha, hp⟩
    obtain ⟨b, hb⟩ := Option.isSome_iff_exists.mp (List.find?_isSome.mpr ⟨a, ha, hp⟩)
    rw [hb, hunique b (List.mem_of_find?_eq_some hb) a ha (List.find?_some hb) hp]

/-- The order of the entries makes no difference to a lookup that only one of them answers. -/
theorem find?_perm_of_unique (hperm : entries.Perm entries')
    (hunique : ∀ a ∈ entries, ∀ b ∈ entries, p a = true → p b = true → a = b) :
    entries.find? p = entries'.find? p := by
  have hunique' : ∀ a ∈ entries', ∀ b ∈ entries', p a = true → p b = true → a = b :=
    fun a ha b hb => hunique a (hperm.mem_iff.mpr ha) b (hperm.mem_iff.mpr hb)
  ext a
  rw [find?_eq_some_iff_of_unique hunique, find?_eq_some_iff_of_unique hunique', hperm.mem_iff]

end Unique

variable {α κ : Type} [DecidableEq κ] {key : α → κ} {entries entries' : List α} {k : κ}

theorem eq_of_key (hnodup : (entries.map key).Nodup) :
    ∀ a ∈ entries, ∀ b ∈ entries, (key a == k) = true → (key b == k) = true → a = b := by
  intro a ha b hb hka hkb
  exact List.inj_on_of_nodup_map hnodup ha hb ((beq_iff_eq.mp hka).trans (beq_iff_eq.mp hkb).symm)

theorem find?_key_eq_some_iff (hnodup : (entries.map key).Nodup) {a : α} :
    entries.find? (fun e => key e == k) = some a ↔ a ∈ entries ∧ key a = k := by
  rw [find?_eq_some_iff_of_unique (eq_of_key hnodup), beq_iff_eq]

/-- The order of entries with distinct keys makes no difference to a lookup. -/
theorem find?_key_perm (hperm : entries.Perm entries') (hnodup : (entries.map key).Nodup) :
    entries.find? (fun e => key e == k) = entries'.find? (fun e => key e == k) :=
  find?_perm_of_unique hperm (eq_of_key hnodup)

theorem lookup_eq_map_find? (entries : List (κ × α)) :
    entries.lookup k = (entries.find? fun e => e.1 == k).map (·.2) := by
  induction entries with
  | nil => rfl
  | cons e entries ih =>
    rw [List.lookup_cons, List.find?_cons, BEq.comm, ih]
    cases e.1 == k <;> rfl

theorem lookup_key_eq_some_iff {entries : List (κ × α)} (hnodup : (entries.map (·.1)).Nodup)
    {a : α} : entries.lookup k = some a ↔ (k, a) ∈ entries := by
  rw [lookup_eq_map_find?, Option.map_eq_some_iff]
  simp only [find?_key_eq_some_iff hnodup]
  constructor
  · rintro ⟨e, ⟨he, rfl⟩, rfl⟩
    exact he
  · intro he
    exact ⟨(k, a), ⟨he, rfl⟩, rfl⟩

omit [DecidableEq κ] in
/-- Entries that are made of some elements of a list have the keys of these elements. -/
theorem sublist_keys {β : Type} (key : α → κ) (value? : α → Option β) (as : List α) :
    ((as.filterMap fun a => (value? a).map (key a, ·)).map (·.1)).Sublist (as.map key) := by
  induction as with
  | nil => exact List.Sublist.refl []
  | cons a as ih =>
    cases hvalue : value? a with
    | none => simpa [hvalue] using ih.cons (key a)
    | some b => simpa [hvalue] using ih

end Typings
