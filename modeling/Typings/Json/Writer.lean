import Typings.Decimal.Shortest
import Typings.Json.Basic

/-!
# Writing JSON

A value is written on one line, without blanks. Inside a string only quotes, backslashes and control
characters are escaped. An unreadable value has no text of its own and is written as `null`.

## Main definitions

* `Json.write`: the text of a value.
-/

namespace Typings.Json

/-- Four hexadecimal digits of a code unit. -/
def unitDigits (n : Nat) : List Char :=
  let ds := Nat.toDigits 16 n
  List.replicate (4 - ds.length) '0' ++ ds

/-- A character inside a string. -/
def writtenChar (c : Char) : List Char :=
  if c = '"' then ['\\', '"']
  else if c = '\\' then ['\\', '\\']
  else if c.toNat < 0x20 then ['\\', 'u'] ++ unitDigits c.toNat
  else [c]

/-- A string between quotes. -/
def writtenText (s : String) : String :=
  String.ofList ('"' :: s.toList.flatMap writtenChar ++ ['"'])

mutual

/-- The text of a value. -/
def write : Json → String
  | null => "null"
  | boolean true => "true"
  | boolean false => "false"
  | natural n => toString n
  | number x => x.text
  | text s => writtenText s
  | array items => "[" ++ String.intercalate "," (writeItems items) ++ "]"
  | object fields => "\x7b" ++ String.intercalate "," (writeFields fields) ++ "\x7d"
  | unreadable => "null"

/-- The texts of the items of an array. -/
def writeItems : List Json → List String
  | [] => []
  | item :: rest => item.write :: writeItems rest

/-- The texts of the fields of an object. -/
def writeFields : List (String × Json) → List String
  | [] => []
  | (name, value) :: rest => (writtenText name ++ ":" ++ value.write) :: writeFields rest

end

end Typings.Json
