import Typings.NamingPolicy
import Typings.Symbol.Basic

/-!
# Final names

When all symbols are known, each gets its final name: entities by the naming policy, followed by
their suffix; generated declarations keep their name. Two entities must not share a name, nor may
two declarations. Both checks collect the owners of every name in a map whose entries are in the
order of the names, and report the first name that has several.

## Main definitions

* `ResolvedName`, `Names`: the name of a symbol, and the names of all symbols of a table.
* `NameConflict`: a name with several owners.
* `updateEntry`, `firstShared?`: maps from names to their owners, and the search in them.
* `SymbolTable.resolve`: the names of a table, or the least name that several entities claim.
* `Names.conflict?`: the least name that several of the given symbols share.
-/

namespace Typings

/-- A simple name, in a namespace or not. -/
structure ResolvedName where
  space : Option String
  simple : String
  deriving Repr, DecidableEq, Inhabited

namespace ResolvedName

/-- A dotted name, cut at its last dot. -/
def ofFullName (fullName : String) : ResolvedName :=
  let (space, simple) := EntityName.splitNamespace fullName
  ⟨space, simple⟩

/-- The name at reference sites. -/
def fullName (name : ResolvedName) : String :=
  match name.space with
  | some space => space ++ "." ++ name.simple
  | none => name.simple

end ResolvedName

/-- A name that several owners claim. -/
structure NameConflict where
  name : String
  owners : List String
  deriving Repr, DecidableEq, Inhabited

section Owners

variable {α : Type}

/-- Changes the owners of a name in a map whose entries are in the order of the names. A name
without an entry has no owners before. -/
def updateEntry (name : String) (change : List α → List α) :
    List (String × List α) → List (String × List α)
  | [] => [(name, change [])]
  | entry :: rest =>
    if name < entry.1 then (name, change []) :: entry :: rest
    else if name = entry.1 then (name, change entry.2) :: rest
    else entry :: updateEntry name change rest

/-- Everything that claims a name, by name. -/
def claimants (claims : List (String × α)) : List (String × List α) :=
  claims.foldl (fun map claim => updateEntry claim.1 (· ++ [claim.2]) map) []

/-- The first name with more than one owner. -/
def firstShared? (map : List (String × List α)) : Option (String × List α) :=
  map.find? fun entry => decide (1 < entry.2.length)

end Owners

/-- The final names of all symbols of a table. -/
structure Names where
  origins : List Origin
  names : List ResolvedName
  deriving Repr, DecidableEq, Inhabited

/-- The final dotted name of an origin. -/
def Origin.fullName (policy : NamingPolicy) : Origin → String
  | .entity name suffix => policy.apply name ++ suffix
  | .synthetic name => name

/-- The name that an entity claims, and the entity. -/
def Origin.claim? (policy : NamingPolicy) : Origin → Option (String × String)
  | .entity name suffix => some (policy.apply name ++ suffix, name ++ suffix)
  | .synthetic _ => none

/-- The final names of a table, unless two entities claim the same name. -/
def SymbolTable.resolve (table : SymbolTable) (policy : NamingPolicy) : Except NameConflict Names :=
  match firstShared? (claimants (table.origins.filterMap (·.claim? policy))) with
  | some (name, owners) => .error ⟨name, owners⟩
  | none =>
    .ok ⟨table.origins, table.origins.map fun origin => .ofFullName (origin.fullName policy)⟩

namespace Names

/-- The name of a symbol, if its table issued it. -/
def name? (names : Names) (symbol : Symbol) : Option ResolvedName :=
  names.names[symbol.id]?

/-- The dotted name of a symbol, if its table issued it. -/
def fullName? (names : Names) (symbol : Symbol) : Option String :=
  (names.name? symbol).map (·.fullName)

/-- The origin of a symbol, if its table issued it. -/
def origin? (names : Names) (symbol : Symbol) : Option Origin :=
  names.origins[symbol.id]?

/-- The named symbols among the given ones, by name. A symbol that is given twice is listed
once. -/
def owners (names : Names) (symbols : List Symbol) : List (String × List Symbol) :=
  symbols.foldl (fun map symbol =>
    match names.fullName? symbol with
    | some name =>
      updateEntry name (fun owners => if symbol ∈ owners then owners else owners ++ [symbol]) map
    | none => map) []

/-- The least name that several of the given symbols share; its owners are in the order of their
symbols. -/
def conflict? (names : Names) (symbols : List Symbol) : Option NameConflict :=
  (firstShared? (names.owners symbols)).map fun (name, owners) =>
    let sorted := owners.mergeSort fun a b => a.id ≤ b.id
    ⟨name, (sorted.filterMap names.origin?).map (·.describe)⟩

end Names

end Typings
