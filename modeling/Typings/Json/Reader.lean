import Typings.Json.Basic
import Typings.Text.Digits

/-!
# Reading JSON

The reader takes exactly one value, with blanks, tabs and line ends around it and between its parts.
It refuses what is not well written. What is well written but has no meaning is marked as
unreadable: arrays and objects that are nested more than `depthLimit` deep, numbers out of range,
and texts with half of a pair of code units.

A number is read from the digits that fit into 64 bits: later digits of its whole part move the
decimal point, later digits of its fraction are dropped.

## Main definitions

* `Json.read?`: the value of a text, if it is one.
-/

namespace Typings.Json

open Text (digitValue decimalNumber hexNumber?)

/-- How deep arrays and objects may be nested to be readable. -/
def depthLimit : Nat := 127

/-- Whether the character may stand between the parts of a value. -/
def isSpace (c : Char) : Bool :=
  c = ' ' || c = '\n' || c = '\r' || c = '\t'

/-- The text without the spaces at its start. -/
def skipSpace (cs : List Char) : List Char :=
  cs.dropWhile isSpace

/-- Extends a significand by digits as long as it fits into 64 bits; the other digits are left. -/
def extend (significand : Nat) : List Char → Nat × List Char
  | [] => (significand, [])
  | d :: rest =>
    let longer := 10 * significand + digitValue d
    if longer < Nat.pow 2 64 then extend longer rest else (significand, d :: rest)

/-- The digits at the start of a text and what follows them. -/
def spanDigits (cs : List Char) : List Char × List Char :=
  (cs.takeWhile Char.isDigit, cs.dropWhile Char.isDigit)

/-- The digits of a whole part: a zero alone, or digits that do not start with zero. -/
def wholePart? (cs : List Char) : Option (List Char × List Char) :=
  match spanDigits cs with
  | ([], _) => none
  | ('0' :: _ :: _, _) => none
  | parts => some parts

/-- The digits of a fraction, none if there is no decimal point. -/
def fraction? : List Char → Option (List Char × List Char)
  | '.' :: cs =>
    match spanDigits cs with
    | ([], _) => none
    | parts => some parts
  | cs => some ([], cs)

/-- The digits of an exponent after its sign. -/
def exponentDigits? (cs : List Char) : Option (Nat × List Char) :=
  match spanDigits cs with
  | ([], _) => none
  | (ds, rest) => some (decimalNumber ds, rest)

/-- The exponent of a number, if it has one. -/
def exponent? : List Char → Option (Option Int × List Char)
  | c :: cs =>
    if c = 'e' ∨ c = 'E' then
      match cs with
      | '+' :: cs => (exponentDigits? cs).map fun (n, rest) => (some (n : Int), rest)
      | '-' :: cs => (exponentDigits? cs).map fun (n, rest) => (some (-(n : Int)), rest)
      | cs => (exponentDigits? cs).map fun (n, rest) => (some (n : Int), rest)
    else some (none, c :: cs)
  | [] => some (none, [])

/-- The number with the given digits before and after the decimal point. -/
def ofDigits (negative : Bool) (whole part : List Char) (exponent : Option Int) : Json :=
  let (significand, unread) := extend 0 whole
  -- a plain whole number of 64 bits stays exact
  if !negative && unread.isEmpty && part.isEmpty && exponent.isNone then natural significand
  else
    let (significand, dropped) := extend significand part
    -- unread digits of the whole part scale up, and those read of the fraction scale down
    let power : Int := exponent.getD 0 + unread.length - (part.length - dropped.length : Nat)
    ((Binary64.ofDecimal? negative significand power).map number).getD unreadable

/-- A number without its sign. -/
def magnitude? (negative : Bool) (cs : List Char) : Option (Json × List Char) := do
  let (whole, cs) ← wholePart? cs
  let (part, cs) ← fraction? cs
  let (exponent, cs) ← exponent? cs
  pure (ofDigits negative whole part exponent, cs)

def number? : List Char → Option (Json × List Char)
  | '-' :: cs => magnitude? true cs
  | cs => magnitude? false cs

/-- The character of a one-letter escape. -/
def escaped? (c : Char) : Option Char :=
  match c with
  | '"' => some '"'
  | '\\' => some '\\'
  | '/' => some '/'
  | 'b' => some '\x08'
  | 'f' => some '\x0c'
  | 'n' => some '\n'
  | 'r' => some '\r'
  | 't' => some '\t'
  | _ => none

/-- The character that two code units stand for. -/
def pairedChar (high low : Nat) : Char :=
  Char.ofNat (0x10000 + (high - 0xd800) * 0x400 + (low - 0xdc00))

/-- The rest of a string after its opening quote; `read` holds the characters read so far, in
reverse. They are lost when a code unit of a pair stands alone. -/
def stringBody? (read : Option (List Char)) : List Char → Option (Option String × List Char)
  | [] => none
  | '"' :: rest => some (read.map fun cs => String.ofList cs.reverse, rest)
  | '\\' :: 'u' :: a :: b :: c :: d :: rest =>
    match hexNumber? [a, b, c, d] with
    | none => none
    | some unit =>
      -- the second unit of a pair without the first
      if 0xdc00 ≤ unit ∧ unit < 0xe000 then stringBody? none rest
      else if 0xd800 ≤ unit ∧ unit < 0xdc00 then
        match rest with
        | '\\' :: 'u' :: e :: f :: g :: h :: rest =>
          match hexNumber? [e, f, g, h] with
          | none => none
          | some low =>
            if 0xdc00 ≤ low ∧ low < 0xe000 then
              stringBody? (read.map (pairedChar unit low :: ·)) rest
            else stringBody? none rest
        -- the first unit of a pair without the second
        | rest => stringBody? none rest
      else stringBody? (read.map (Char.ofNat unit :: ·)) rest
  | '\\' :: c :: rest =>
    match escaped? c with
    | none => none
    | some e => stringBody? (read.map (e :: ·)) rest
  | c :: rest =>
    if c.toNat < 0x20 ∨ c = '\\' then none else stringBody? (read.map (c :: ·)) rest

/-- A string after its opening quote. -/
def string? (cs : List Char) : Option (Option String × List Char) :=
  stringBody? (some []) cs

/-- An array or object, if `depth` leaves room for one. -/
def enclosed (depth : Nat) (value : Json) : Json :=
  if depth = 0 then unreadable else value

/-- An object with the given fields, if all their names are readable. -/
def ofFields (fields : List (Option String × Json)) : Json :=
  let named? := fields.mapM fun (name, value) => name.map (·, value)
  (named?.map object).getD unreadable

mutual

/-- A value; `depth` more arrays and objects may be opened, and the text is no longer than
`fuel`. -/
def value? (depth : Nat) : Nat → List Char → Option (Json × List Char)
  | 0, _ => none
  | fuel + 1, cs =>
    match skipSpace cs with
    | '"' :: cs => (string? cs).map fun (s, rest) => ((s.map text).getD unreadable, rest)
    | '[' :: cs =>
      match skipSpace cs with
      | ']' :: rest => some (enclosed depth (array []), rest)
      | cs =>
        -- beyond the limit the reader goes on, since wrong syntax is refused at any depth
        (items? (depth - 1) fuel cs).map fun (items, rest) => (enclosed depth (array items), rest)
    | '{' :: cs =>
      match skipSpace cs with
      | '}' :: rest => some (enclosed depth (object []), rest)
      | cs =>
        (fields? (depth - 1) fuel cs).map fun (fields, rest) =>
          (enclosed depth (ofFields fields), rest)
    | 'n' :: 'u' :: 'l' :: 'l' :: rest => some (null, rest)
    | 't' :: 'r' :: 'u' :: 'e' :: rest => some (boolean true, rest)
    | 'f' :: 'a' :: 'l' :: 's' :: 'e' :: rest => some (boolean false, rest)
    | cs => number? cs

/-- The items of an array up to its closing bracket. -/
def items? (depth : Nat) : Nat → List Char → Option (List Json × List Char)
  | 0, _ => none
  | fuel + 1, cs =>
    match value? depth fuel cs with
    | none => none
    | some (item, cs) =>
      match skipSpace cs with
      | ',' :: cs => (items? depth fuel cs).map fun (items, rest) => (item :: items, rest)
      | ']' :: rest => some ([item], rest)
      | _ => none

/-- The fields of an object up to its closing brace. -/
def fields? (depth : Nat) : Nat → List Char → Option (List (Option String × Json) × List Char)
  | 0, _ => none
  | fuel + 1, cs =>
    match skipSpace cs with
    | '"' :: cs =>
      match string? cs with
      | none => none
      | some (name, cs) =>
        match skipSpace cs with
        | ':' :: cs =>
          match value? depth fuel cs with
          | none => none
          | some (value, cs) =>
            match skipSpace cs with
            | ',' :: cs =>
              (fields? depth fuel cs).map fun (fields, rest) => ((name, value) :: fields, rest)
            | '}' :: rest => some ([(name, value)], rest)
            | _ => none
        | _ => none
    | _ => none

end

/-- The value that a text is, with nothing but spaces around it. -/
def read? (source : String) : Option Json :=
  let cs := source.toList
  -- a level of nesting takes two steps and has two brackets, so the length is fuel enough
  match value? depthLimit (cs.length + 1) cs with
  | some (value, rest) => if (skipSpace rest).isEmpty then some value else none
  | none => none

end Typings.Json
