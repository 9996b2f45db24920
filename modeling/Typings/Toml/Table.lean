import Typings.Json.Basic

/-!
# Tables of a TOML document

A document assigns values to keys, under headers that name tables. Every table is defined once: by a
header, by the dotted keys that lead through it, or as a value. A header may complete a table that
so far only other headers led through.

## Main definitions

* `Node`, `Table`: what a key stands for.
* `Table.update?`: changes the table that a path leads to.
* `Table.assign?`: assigns a value to a dotted key.
* `Statement`, `Document.add?`: the statements of a document, and their effect.
-/

namespace Typings.Toml

/-- What a key stands for. -/
inductive Node where
  | value (json : Json)
  /-- A table; an implicit one has no header of its own, a dotted one was made by dotted keys. -/
  | table (implicit dotted : Bool) (entries : List (String × Node))
  /-- Tables with the same header; paths lead to the last one. -/
  | tables (earlier : List (List (String × Node))) (last : List (String × Node))
  deriving Inhabited

/-- A table. -/
structure Table where
  implicit : Bool := false
  dotted : Bool := false
  entries : List (String × Node) := []
  deriving Inhabited

mutual

/-- The value of a node. -/
def Node.toJson : Node → Json
  | .value json => json
  | .table _ _ entries => .object (entriesToJson entries)
  | .tables earlier last => .array (tablesToJson earlier ++ [.object (entriesToJson last)])

/-- The fields of a table. -/
def entriesToJson : List (String × Node) → List (String × Json)
  | [] => []
  | (key, node) :: rest => (key, node.toJson) :: entriesToJson rest

/-- The values of tables. -/
def tablesToJson : List (List (String × Node)) → List Json
  | [] => []
  | entries :: rest => .object (entriesToJson entries) :: tablesToJson rest

end

def setEntry {α : Type} (key : String) (value : α) : List (String × α) → List (String × α)
  | [] => [(key, value)]
  | entry :: rest =>
    if entry.1 = key then (key, value) :: rest else entry :: setEntry key value rest

namespace Table

def toNode (t : Table) : Node :=
  .table t.implicit t.dotted t.entries

/-- What a key stands for. -/
def get? (t : Table) (key : String) : Option Node :=
  t.entries.lookup key

def set (t : Table) (key : String) (node : Node) : Table :=
  { t with entries := setEntry key node t.entries }

/-- Changes the table that a path leads to; missing tables are made on the way. Dotted keys do not
lead through tables with headers. -/
def update? (dotted : Bool) (change : Table → Option Table) : List String → Table → Option Table
  | [], t => change t
  | key :: rest, t =>
    match t.get? key with
    | none => do
      -- a table that a path leads through can still get a header of its own
      let child ← update? dotted change rest { implicit := true, dotted }
      pure (t.set key child.toNode)
    | some (.value _) => none
    | some (.table implicit isDotted entries) =>
      if dotted && !implicit then none
      else do
        let child ← update? dotted change rest { implicit, dotted := isDotted, entries }
        pure (t.set key child.toNode)
    | some (.tables earlier last) => do
      let child ← update? dotted change rest { entries := last }
      pure (t.set key (.tables earlier child.entries))

/-- Assigns a value to a dotted key, which must be new. The table that it belongs to is one of
dotted keys if the key is dotted. -/
def assign? (path : List String) (json : Json) (t : Table) : Option Table :=
  match path.getLast? with
  | none => none
  | some key =>
    t.update? true
      (fun owner =>
        -- a dotted key belongs to a table of dotted keys, a plain one to a table with a header
        if owner.dotted == path.dropLast.isEmpty || (owner.get? key).isSome then none
        else some (owner.set key (.value json)))
      path.dropLast

def openTable? (key : String) (owner : Table) : Option Table :=
  match owner.get? key with
  | none => some (owner.set key (.table false false []))
  | some (.table implicit dotted entries) =>
    if implicit && !dotted then some (owner.set key (.table false false entries)) else none
  | some _ => none

/-- Opens a further table with the same header. -/
def openNext? (key : String) (owner : Table) : Option Table :=
  match owner.get? key with
  | none => some (owner.set key (.tables [] []))
  | some (.tables earlier last) => some (owner.set key (.tables (earlier ++ [last]) []))
  | some _ => none

end Table

/-- A table written as a value. -/
def inlineTable? (pairs : List (List String × Json)) : Option Json :=
  (pairs.foldlM (fun t pair => Table.assign? pair.1 pair.2 t) {}).map fun (t : Table) =>
    .object (entriesToJson t.entries)

/-- A statement of a document. Paths have at least one key. -/
inductive Statement where
  | assign (path : List String) (json : Json)
  /-- The header of a table. -/
  | header (path : List String)
  /-- The header of one of several tables. -/
  | nextHeader (path : List String)

/-- A document up to some statement. -/
structure Document where
  root : Table := {}
  /-- The path of the last header. -/
  current : List String := []

namespace Document

/-- Opens a table below the root. -/
def openAt? (document : Document) (path : List String) (opened : String → Table → Option Table) :
    Option Document :=
  match path.getLast? with
  | none => none
  | some key =>
    (document.root.update? false (opened key) path.dropLast).map fun root =>
      { root, current := path }

/-- The document with a further statement, if it is allowed. -/
def add? (document : Document) : Statement → Option Document
  | .assign path json =>
    (document.root.update? false (Table.assign? path json) document.current).map fun root =>
      { document with root }
  | .header path => document.openAt? path Table.openTable?
  | .nextHeader path => document.openAt? path Table.openNext?

/-- The value of a document. -/
def toJson (document : Document) : Json :=
  .object (entriesToJson document.root.entries)

end Document

end Typings.Toml
