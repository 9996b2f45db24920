import Typings.Digraph
import Typings.Model.Basic
import Typings.Settings.Basic
import Typings.Symbol.Names

/-!
# Order of declarations

Data declarations come first, each after its parent, then aliases, then enums.

## Main definitions

* `SortMode.sortProperties`, `SortMode.sortByName`: what the sort mode puts in order.
* `parentFirst`: the positions of data declarations, parents before their children.
* `Model.order`: the model in the order in which it is written.
-/

namespace Typings

/-- Names in increasing order, what has no name last. -/
def nameLe : Option String → Option String → Bool
  | some a, some b => a ≤ b
  | some _, none => true
  | none, some _ => false
  | none, none => true

/-- Whether a symbol may stand before another by their names. -/
def Names.le (names : Names) (a b : Symbol) : Bool :=
  nameLe (names.fullName? a) (names.fullName? b)

/-- Whether a declaration may stand before another by category and name. -/
def DataDeclaration.le (names : Names) (a b : DataDeclaration) : Bool :=
  a.category.rank < b.category.rank ||
    (a.category.rank == b.category.rank && names.le a.symbol b.symbol)

/-- The declaration with its properties ordered by name. -/
def DataDeclaration.sortProperties (d : DataDeclaration) : DataDeclaration :=
  { d with properties := d.properties.mergeSort fun p q => p.name ≤ q.name }

def Model.sorted (names : Names) (mode : SortMode) (model : Model) : Model :=
  match mode with
  | .unsorted => model
  | .propertiesOnly => { model with data := model.data.map (·.sortProperties) }
  | .full =>
    { model with
      data := (model.data.map (·.sortProperties)).mergeSort (DataDeclaration.le names)
      aliases := model.aliases.mergeSort fun a b => names.le a.symbol b.symbol
      enums := model.enums.mergeSort fun a b => names.le a.symbol b.symbol }

def parentPosition? (data : List DataDeclaration) (position : Nat) : Option Nat :=
  (data[position]?.bind fun d => d.parent.bind (·.referenced?)).bind fun symbol =>
    data.findIdx? (·.symbol == symbol)

theorem lt_length_of_parentPosition? {data : List DataDeclaration} {position parent : Nat}
    (h : parentPosition? data position = some parent) : position < data.length := by
  obtain ⟨_, found, _⟩ := Option.bind_eq_some_iff.mp h
  obtain ⟨_, found, _⟩ := Option.bind_eq_some_iff.mp found
  exact (List.getElem?_eq_some_iff.mp found).1

/-- A position and the positions of its ancestors up to the first that was visited. -/
def lineage (data : List DataDeclaration) (visited : List Nat) (position : Nat) : List Nat :=
  if _again : position ∈ visited then []
  else
    match _found : parentPosition? data position with
    | none => [position]
    | some parent => position :: lineage data (position :: visited) parent
termination_by unseen (List.range data.length) visited
decreasing_by
  exact unseen_cons_lt (List.mem_range.mpr (lt_length_of_parentPosition? _found)) _again

/-- All positions, each after the position of its parent. Where parents form a cycle the position
that is met first comes last. -/
def parentFirst (data : List DataDeclaration) : List Nat :=
  (List.range data.length).foldl
    -- a lineage goes upwards, and it is written downwards
    (fun ordered position => ordered ++ (lineage data ordered position).reverse) []

def Model.order (names : Names) (mode : SortMode) (model : Model) : OrderedModel :=
  let sorted := model.sorted names mode
  { declarations :=
      ((parentFirst sorted.data).filterMap (sorted.data[·]?)).map .ofData ++
        sorted.aliases.map .ofAlias ++ sorted.enums.map .ofEnum
    helpers := sorted.helpers }

end Typings
