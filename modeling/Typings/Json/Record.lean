import Typings.Json.Basic

/-!
# Typed values in documents

Settings and graphs are records. A record is written as an object with named fields, or as an array
of its fields in order, of which those with a default may be missing at the end. A field that the
record does not have is ignored; one that it has must not be repeated.

Documents come in two formats that differ in small ways: in JSON an array must not have more items
than the record has fields, and a choice may be written as an object with one `null` field; in TOML
surplus items are ignored, and such an object has an empty array or table.

## Main definitions

* `Format`: the formats.
* `Record`: the fields of a record, with `Record.required?`, `Record.optional?` and
  `Record.default?`.
* `Json.readText?`, `Json.readBool?`, `Json.readList?`, `Json.readTexts?`, `Json.readMap?`,
  `Json.readChoice?`: typed values.
-/

namespace Typings

/-- The format that a document is written in. -/
inductive Format where
  | json
  | toml
  deriving Repr, DecidableEq, Inhabited

/-- The fields of a record that are present, by name. -/
structure Record where
  fields : List (String × Json)

namespace Record

/-- Reads the fields of a record with the given field names. -/
def ofJson? (format : Format) (names : List String) : Json → Option Record
  | .object fields =>
    if names.any fun name => 1 < fields.countP (·.1 == name) then none else some ⟨fields⟩
  | .array items =>
    if format = .json ∧ names.length < items.length then none else some ⟨names.zip items⟩
  | _ => none

/-- A field that must be present. -/
def required? {α : Type} (record : Record) (name : String) (read? : Json → Option α) : Option α :=
  (record.fields.lookup name).bind read?

/-- A field that is its default if it is missing. -/
def default? {α : Type} (record : Record) (name : String) (default : α) (read? : Json → Option α) :
    Option α :=
  match record.fields.lookup name with
  | none => some default
  | some value => read? value

/-- A field that may be missing or `null`. -/
def optional? {α : Type} (record : Record) (name : String) (read? : Json → Option α) :
    Option (Option α) :=
  match record.fields.lookup name with
  | none => some none
  | some .null => some none
  | some value => (read? value).map some

end Record

namespace Json

def readText? : Json → Option String
  | text s => some s
  | _ => none

/-- Reads a truth value. -/
def readBool? : Json → Option Bool
  | boolean b => some b
  | _ => none

/-- Reads an array. -/
def readList? {α : Type} (read? : Json → Option α) : Json → Option (List α)
  | array items => items.mapM read?
  | _ => none

def readTexts? : Json → Option (List String) :=
  readList? readText?

/-- Inserts an entry into a map kept in the order of its keys; it replaces an entry of the same
key. -/
def insertEntry {α : Type} (key : String) (value : α) : List (String × α) → List (String × α)
  | [] => [(key, value)]
  | entry :: rest =>
    if key < entry.1 then (key, value) :: entry :: rest
    else if key = entry.1 then (key, value) :: rest
    else entry :: insertEntry key value rest

/-- Reads an object as a map, in the order of its keys. -/
def readMap? {α : Type} (read? : Json → Option α) : Json → Option (List (String × α))
  | object fields =>
    fields.foldlM
      (fun entries field => (read? field.2).map fun value => insertEntry field.1 value entries) []
  | _ => none

/-- Whether the value may accompany a choice that is written as an object. -/
def isUnit (format : Format) : Json → Bool
  | null => format = .json
  | array [] => format = .toml
  | object [] => format = .toml
  | _ => false

/-- Reads one of several named choices. -/
def readChoice? {α : Type} (format : Format) (choices : List (String × α)) : Json → Option α
  | text name => choices.lookup name
  | object [(name, value)] => if value.isUnit format then choices.lookup name else none
  | _ => none

end Json

end Typings
