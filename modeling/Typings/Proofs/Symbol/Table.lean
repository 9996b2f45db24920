import Mathlib.Order.Defs.PartialOrder
import Mathlib.Data.List.Nodup
import Typings.Symbol.Basic

/-!
# Growth of symbol tables

A symbol table only ever grows at its end, so a symbol keeps its origin and an origin keeps its
symbol. Tables are ordered by this: `a ≤ b` says that `b` issued the symbols of `a` before all
others.

## Main definitions

* `SymbolTable.Issues`: a table issued a symbol.
* `SymbolTable.ofOrigins`: the table that symbols were asked of for the given origins.

## Main results

* `SymbolTable.find?_mono`, `SymbolTable.origin?_mono`: a larger table agrees with a smaller one.
* `SymbolTable.find?_injective`: no symbol belongs to two origins.
* `SymbolTable.nodup_origins`: no origin is listed twice.
* `SymbolTable.le_intern`, `SymbolTable.find?_intern`, `SymbolTable.mem_origins_intern`: what
  interning an origin does.
-/

namespace Typings.SymbolTable

/-- A table is below those that issued its symbols before all others. -/
instance : Preorder SymbolTable where
  le a b := a.origins <+: b.origins
  le_refl _ := List.prefix_rfl
  le_trans _ _ _ hab hbc := List.IsPrefix.trans hab hbc

variable {a b : SymbolTable} {origin origin' : Origin} {symbol symbol' : Symbol}

theorem le_def : a ≤ b ↔ a.origins <+: b.origins := Iff.rfl

theorem origin?_mono (h : a ≤ b) (found : a.origin? symbol = some origin) :
    b.origin? symbol = some origin := by
  obtain ⟨more, hmore⟩ := le_def.mp h
  obtain ⟨hlt, -⟩ := List.getElem?_eq_some_iff.mp found
  rw [origin?, ← hmore, List.getElem?_append_left hlt]
  exact found

theorem origin?_of_find? (found : a.find? origin = some symbol) :
    a.origin? symbol = some origin :=
  find?_eq_some_iff.mp found

theorem find?_mono (h : a ≤ b) (found : a.find? origin = some symbol) :
    b.find? origin = some symbol :=
  find?_eq_some_iff.mpr (origin?_mono h (origin?_of_find? found))

def Issues (table : SymbolTable) (s : Symbol) : Prop :=
  ∃ origin, table.origin? s = some origin

theorem issues_of_find? (found : a.find? origin = some symbol) : a.Issues symbol :=
  ⟨origin, origin?_of_find? found⟩

/-- No symbol belongs to two origins. -/
theorem find?_injective (found : a.find? origin = some symbol)
    (found' : a.find? origin' = some symbol) : origin = origin' := by
  have h := origin?_of_find? found
  rw [origin?_of_find? found'] at h
  exact (Option.some.inj h).symm

theorem exists_find?_of_mem (h : origin ∈ a.origins) : ∃ symbol, a.find? origin = some symbol := by
  obtain ⟨position, hposition⟩ := List.mem_iff_getElem?.mp h
  exact ⟨⟨position⟩, find?_eq_some_iff.mpr hposition⟩

/-- No origin belongs to two symbols. -/
theorem eq_of_origin? (found : a.origin? symbol = some origin)
    (found' : a.origin? symbol' = some origin) : symbol = symbol' := by
  have h := find?_eq_some_iff.mpr found
  rw [find?_eq_some_iff.mpr found'] at h
  exact (Option.some.inj h).symm

theorem nodup_origins (table : SymbolTable) : table.origins.Nodup := by
  refine List.nodup_iff_injective_getElem.mpr fun i j hij => Fin.ext ?_
  have hi : table.origin? ⟨i⟩ = some table.origins[i] := List.getElem?_eq_getElem i.isLt
  have hj : table.origin? ⟨j⟩ = some table.origins[j] := List.getElem?_eq_getElem j.isLt
  exact congrArg Symbol.id (eq_of_origin? hi (hj.trans (congrArg some hij.symm)))

/-- The index finds what a search of the list finds. -/
theorem find?_eq_findIdx? (table : SymbolTable) (origin : Origin) :
    table.find? origin = (table.origins.findIdx? (· == origin)).map Symbol.mk := by
  cases h : table.find? origin with
  | some symbol =>
    obtain ⟨hlt, heq⟩ := List.getElem?_eq_some_iff.mp (origin?_of_find? h)
    have hposition : table.origins.findIdx? (· == origin) = some symbol.id := by
      refine List.findIdx?_eq_some_iff_getElem.mpr ⟨hlt, by simp [heq], fun j hj hfound => ?_⟩
      have hsame := (List.getElem_inj table.nodup_origins).mp
        ((eq_of_beq hfound).trans heq.symm)
      exact Nat.ne_of_lt hj hsame
    rw [hposition]
    rfl
  | none =>
    refine (Option.map_eq_none_iff.mpr (List.findIdx?_eq_none_iff.mpr fun o ho => ?_)).symm
    obtain ⟨symbol, hfound⟩ := exists_find?_of_mem ho
    refine beq_eq_false_iff_ne.mpr ?_
    rintro rfl
    rw [h] at hfound
    cases hfound

/-! ## Interning -/

/-- The table that issued symbols for the given origins, one after the other. -/
def ofOrigins (origins : List Origin) : SymbolTable :=
  origins.foldl (fun table origin => (table.intern origin).2) {}

theorem intern_of_find? (found : a.find? origin = some symbol) :
    a.intern origin = (symbol, a) := by
  unfold intern
  split <;> simp_all

theorem intern_of_new (new : a.find? origin = none) :
    a.intern origin = (⟨a.size⟩, a.push origin new) := by
  unfold intern
  split <;> simp_all

theorem le_intern (table : SymbolTable) (origin : Origin) : table ≤ (table.intern origin).2 := by
  cases h : table.find? origin with
  | some symbol =>
    rw [intern_of_find? h]
  | none =>
    rw [intern_of_new h]
    exact List.prefix_append table.origins [origin]

/-- An interned origin has the symbol that interning it gave. -/
theorem find?_intern (table : SymbolTable) (origin : Origin) :
    (table.intern origin).2.find? origin = some (table.intern origin).1 := by
  cases h : table.find? origin with
  | some symbol => rw [intern_of_find? h, h]
  | none =>
    rw [intern_of_new h]
    exact List.lookup_cons_self

theorem mem_origins_intern (table : SymbolTable) (origin o : Origin) :
    o ∈ (table.intern origin).2.origins ↔ o ∈ table.origins ∨ o = origin := by
  cases h : table.find? origin with
  | some symbol =>
    rw [intern_of_find? h]
    refine ⟨.inl, fun hmem => hmem.elim id ?_⟩
    rintro rfl
    exact List.mem_of_getElem? (origin?_of_find? h)
  | none =>
    rw [intern_of_new h]
    exact List.mem_append.trans (or_congr_right List.mem_singleton)

end Typings.SymbolTable
