import Typings.Decimal.Binary64

/-!
# JSON values

A JSON value keeps the fields of an object in the order in which they were written, repeated names
included. Natural numbers are told apart from other numbers. A value that is well written but has no
meaning as data is kept as a mark: it does no harm where it is ignored.

## Main definitions

* `Json`: the values.
* `Json.isReadable`: whether every part of a value has a meaning.
* `Json.settled`: the value in which the last field of each name counts.
* `Json.height`: how deep a value is nested.
* `Json.field?`: a field of an object.
-/

namespace Typings

/-- A JSON value. -/
inductive Json where
  | null
  | boolean (value : Bool)
  /-- A number of at most 64 bits, written without sign, fraction and exponent. -/
  | natural (value : Nat)
  /-- Any other number. -/
  | number (value : Binary64)
  | text (value : String)
  | array (items : List Json)
  | object (fields : List (String × Json))
  /-- A number out of range, a text with half of a pair of code units, an object with such a name,
  or an array or object that is nested too deep. -/
  | unreadable
  deriving Repr, Inhabited

namespace Json

mutual

/-- Whether every part of the value has a meaning. -/
def isReadable : Json → Bool
  | unreadable => false
  | array items => areReadable items
  | object fields => fieldsAreReadable fields
  | _ => true

/-- Whether all items of an array are readable. -/
def areReadable : List Json → Bool
  | [] => true
  | item :: rest => item.isReadable && areReadable rest

/-- Whether the values of all fields of an object are readable. -/
def fieldsAreReadable : List (String × Json) → Bool
  | [] => true
  | (_, value) :: rest => value.isReadable && fieldsAreReadable rest

end

/-- Drops each field that a later field of the same name overrides. -/
def lastFields (fields : List (String × Json)) : List (String × Json) :=
  match fields with
  | [] => []
  | field :: rest =>
    if rest.any (·.1 == field.1) then lastFields rest else field :: lastFields rest

mutual

/-- The value in which, in every object, the last field of each name counts. -/
def settled : Json → Json
  | null => null
  | boolean b => boolean b
  | natural n => natural n
  | number x => number x
  | text s => text s
  | array items => array (settledItems items)
  | object fields => object (lastFields (settledFields fields))
  | unreadable => unreadable

def settledItems : List Json → List Json
  | [] => []
  | item :: rest => item.settled :: settledItems rest

/-- The fields of an object with settled values. -/
def settledFields : List (String × Json) → List (String × Json)
  | [] => []
  | (name, value) :: rest => (name, value.settled) :: settledFields rest

end

mutual

/-- How deep arrays and objects are nested in a value. -/
def height : Json → Nat
  | array items => itemsHeight items + 1
  | object fields => fieldsHeight fields + 1
  | _ => 0

/-- The largest height of the items of an array. -/
def itemsHeight : List Json → Nat
  | [] => 0
  | item :: rest => max item.height (itemsHeight rest)

/-- The largest height of the fields of an object. -/
def fieldsHeight : List (String × Json) → Nat
  | [] => 0
  | (_, value) :: rest => max value.height (fieldsHeight rest)

end

/-- The first field of that name, if the value is an object with one. -/
def field? (value : Json) (name : String) : Option Json :=
  match value with
  | object fields => fields.lookup name
  | _ => none

/-- A text as a value, `null` if there is none. -/
def ofText? (value : Option String) : Json :=
  (value.map text).getD null

/-- Texts as an array. -/
def ofTexts (values : List String) : Json :=
  array (values.map text)

end Json

end Typings
