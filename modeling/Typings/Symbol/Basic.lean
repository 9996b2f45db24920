/-!
# Symbols

Declarations and references carry symbols instead of names until all declarations are known. A
symbol table issues the symbols `0`, `1`, `2`, … in the order in which their origins are first
asked for. It lists the origins by symbol, and an index has the symbols by origin.

## Main definitions

* `Symbol`, `Origin`: a symbol and what it was issued for.
* `SymbolTable`: the list of all origins and the index of their symbols.
* `SymbolTable.intern`: the symbol of an origin, issued if it is new.
* `SymbolTable.withSuffix`: the symbol with the same origin and a longer suffix.
-/

namespace Typings

/-- The identity of a declaration that has no name yet. -/
structure Symbol where
  id : Nat
  deriving Repr, DecidableEq, Inhabited

/-- What a symbol was issued for. -/
inductive Origin where
  /-- A source entity, or a declaration derived from it and named with a suffix. -/
  | entity (name : String) (suffix : String)
  /-- A generated declaration without a source entity. -/
  | synthetic (name : String)
  deriving Repr, DecidableEq, Inhabited

namespace Origin

def addSuffix (origin : Origin) (more : String) : Origin :=
  match origin with
  | entity name suffix => entity name (suffix ++ more)
  | synthetic name => synthetic (name ++ more)

theorem addSuffix_addSuffix (origin : Origin) (a b : String) :
    (origin.addSuffix a).addSuffix b = origin.addSuffix (a ++ b) := by
  cases origin <;> simp [addSuffix, String.append_assoc]

/-- The placeholder of an unnamed symbol in log lines. -/
def temporaryName (origin : Origin) : String :=
  match origin with
  | entity name suffix =>
    "$" ++ name.map (fun c => if c = '.' then '$' else c) ++ "$" ++ suffix ++ "$"
  | synthetic name => name

/-- The owner of a name in messages about conflicts. -/
def describe (origin : Origin) : String :=
  match origin with
  | entity name suffix => name ++ suffix
  | synthetic name => name ++ " (generated)"

end Origin

theorem lookup_nil_iff_getElem?_nil (origin : Origin) (symbol : Symbol) :
    ([] : List (Origin × Symbol)).lookup origin = some symbol ↔
      ([] : List Origin)[symbol.id]? = some origin := by
  simp

/-- The origins of all issued symbols, by symbol, and an index of the symbols by origin. -/
structure SymbolTable where
  origins : List Origin := []
  index : List (Origin × Symbol) := []
  /-- The index has the position of every origin in the list, and nothing else. -/
  indexed (origin : Origin) (symbol : Symbol) :
    index.lookup origin = some symbol ↔ origins[symbol.id]? = some origin := by
      exact lookup_nil_iff_getElem?_nil
  deriving Repr, DecidableEq

namespace SymbolTable

instance : Inhabited SymbolTable := ⟨{}⟩

/-- The number of issued symbols. -/
def size (table : SymbolTable) : Nat :=
  table.origins.length

/-- The origin of a symbol, if the table issued it. -/
def origin? (table : SymbolTable) (symbol : Symbol) : Option Origin :=
  table.origins[symbol.id]?

/-- The symbol of an origin, if it was issued. -/
def find? (table : SymbolTable) (origin : Origin) : Option Symbol :=
  table.index.lookup origin

section Index

variable {table : SymbolTable} {origin : Origin} {symbol : Symbol}

/-- Symbols and origins belong to each other. -/
theorem find?_eq_some_iff :
    table.find? origin = some symbol ↔ table.origin? symbol = some origin :=
  table.indexed origin symbol

theorem origin?_ne_of_find?_eq_none (new : table.find? origin = none) :
    table.origin? symbol ≠ some origin := by
  rw [ne_eq, ← find?_eq_some_iff, new]
  exact nofun

/-- The index stays right if it gets the next symbol for a new origin and the list that origin. -/
theorem lookup_push (new : table.find? origin = none) (o : Origin) :
    ((origin, Symbol.mk table.size) :: table.index).lookup o = some symbol ↔
      (table.origins ++ [origin])[symbol.id]? = some o := by
  have old : table.index.lookup o = some symbol ↔ table.origins[symbol.id]? = some o :=
    table.indexed o symbol
  by_cases same : o = origin
  · have absent : table.origins[symbol.id]? ≠ some origin := origin?_ne_of_find?_eq_none new
    subst same
    cases symbol
    grind [size]
  · have differs : (o == origin) = false := by simpa using same
    rw [List.lookup_cons, differs, old]
    grind

end Index

/-- The table with one more symbol, for an origin that has none. -/
def push (table : SymbolTable) (origin : Origin) (new : table.find? origin = none) :
    SymbolTable where
  origins := table.origins ++ [origin]
  index := (origin, ⟨table.size⟩) :: table.index
  indexed o _ := lookup_push new o

/-- The symbol of an origin; a new origin is given the next symbol. -/
def intern (table : SymbolTable) (origin : Origin) : Symbol × SymbolTable :=
  match found : table.find? origin with
  | some symbol => (symbol, table)
  | none => (⟨table.size⟩, table.push origin found)

/-- The entity that a symbol stands for, whatever its suffix. -/
def entity? (table : SymbolTable) (symbol : Symbol) : Option String :=
  match table.origin? symbol with
  | some (.entity name _) => some name
  | _ => none

/-- The name of a symbol that the table did not issue. -/
def unknownName (symbol : Symbol) : String :=
  "$unknown" ++ toString symbol.id ++ "$"

/-- The placeholder of a symbol in log lines. -/
def temporaryName (table : SymbolTable) (symbol : Symbol) : String :=
  match table.origin? symbol with
  | some origin => origin.temporaryName
  | none => unknownName symbol

/-- The origin of a symbol with a longer suffix; a symbol that was not issued counts as
generated. -/
def suffixedOrigin (table : SymbolTable) (symbol : Symbol) (suffix : String) : Origin :=
  ((table.origin? symbol).getD (.synthetic (unknownName symbol))).addSuffix suffix

end SymbolTable

end Typings
