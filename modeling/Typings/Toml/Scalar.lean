import Typings.Json.Basic
import Typings.Text.Digits

/-!
# Numbers, truth values and date-times in TOML

A value that is not quoted is a token. Numbers are only checked: no setting is a number, so their
values do not count.

## Main definitions

* `isInteger`, `isFloat`: the numbers.
* `dateTime?`: a date, a time or both, in its usual form.
* `scalar?`: the value of a token.
-/

namespace Typings.Toml

open Text (decimalNumber hexNumber?)

/-- Whether the character may stand in a token. -/
def isTokenChar (c : Char) : Bool :=
  c.isAlphanum || c = '+' || c = '-' || c = '_' || c = '.' || c = ':'

/-! ## Numbers -/

/-- Whether the text holds digits, with single underscores between digits. -/
def isGrouped (isDigit : Char → Bool) : List Char → Bool
  | [] => false
  | [c] => isDigit c
  | c :: '_' :: rest => isDigit c && isGrouped isDigit rest
  | c :: rest => isDigit c && isGrouped isDigit rest

/-- The digits without the underscores between them. -/
def ungrouped (cs : List Char) : List Char :=
  cs.filter (· ≠ '_')

/-- Whether the text holds the digits of a whole number; several digits do not start with zero. -/
def isWhole (cs : List Char) : Bool :=
  isGrouped Char.isDigit cs && (cs.length = 1 || cs.head? ≠ some '0')

/-- Whether the token is negative, and the token without its sign. -/
def splitSign : List Char → Bool × List Char
  | '+' :: rest => (false, rest)
  | '-' :: rest => (true, rest)
  | cs => (false, cs)

/-- The value of digits in a base. -/
def numberIn (base : Nat) (cs : List Char) : Nat :=
  cs.foldl (fun n c => base * n + ((Text.hexValue? c).getD 0)) 0

/-- Whether the character is a digit of a base up to sixteen. -/
def isDigitIn (base : Nat) (c : Char) : Bool :=
  (Text.hexValue? c).any (· < base)

/-- Whether the token holds digits of a base, and their value fits into 63 bits. -/
def isIntegerIn (base : Nat) (cs : List Char) : Bool :=
  isGrouped (isDigitIn base) cs && numberIn base (ungrouped cs) < Nat.pow 2 63

/-- Whether the token is a whole number of 64 bits. -/
def isInteger (token : List Char) : Bool :=
  match token with
  | '0' :: 'x' :: ds => isIntegerIn 16 ds
  | '0' :: 'o' :: ds => isIntegerIn 8 ds
  | '0' :: 'b' :: ds => isIntegerIn 2 ds
  | token =>
    let (negative, ds) := splitSign token
    isWhole ds &&
      (let n := decimalNumber (ungrouped ds)
       if negative then n ≤ Nat.pow 2 63 else n < Nat.pow 2 63)

/-- The parts of a number: whole part, fraction and exponent, where they are present. -/
structure NumberParts where
  whole : List Char
  fraction : Option (List Char)
  exponent : Option (List Char)

/-- Cuts a text at the first character of a class. -/
def cutAt (isMark : Char → Bool) (cs : List Char) : List Char × Option (List Char) :=
  (cs.takeWhile fun c => !isMark c, (cs.dropWhile fun c => !isMark c).tail?)

/-- Cuts a number without sign into its parts. -/
def numberParts (cs : List Char) : NumberParts :=
  let (mantissa, exponent) := cutAt (fun c => c = 'e' || c = 'E') cs
  let (whole, fraction) := cutAt (· = '.') mantissa
  { whole, fraction, exponent }

/-- The largest power of ten that is looked at when a number is checked for being too large. -/
def largestPower : Nat := 400

/-- Whether the number without sign is too large for 64 bits. -/
def isTooLarge (parts : NumberParts) : Bool :=
  let fraction := ungrouped (parts.fraction.getD [])
  let digits := (ungrouped parts.whole ++ fraction).dropWhile (· = '0')
  let (negative, exponent) := splitSign (parts.exponent.getD ['0'])
  let power : Int := decimalNumber (ungrouped exponent)
  let power := (if negative then -power else power) - fraction.length
  if digits.isEmpty then false
  else if largestPower < digits.length + power then true
  else if digits.length + power < 0 then false
  else if power < 0 then
    (Binary64.ofRatio? false (decimalNumber digits) (Nat.pow 10 power.natAbs)).isNone
  else (Binary64.ofRatio? false (decimalNumber digits * Nat.pow 10 power.natAbs) 1).isNone

/-- Whether the token is a number with a fraction or an exponent, or no number at all by name. -/
def isFloat (token : List Char) : Bool :=
  let (negative, cs) := splitSign token
  let parts := numberParts cs
  cs = ['i', 'n', 'f'] || cs = ['n', 'a', 'n'] ||
    (isWhole parts.whole && (parts.fraction.isSome || parts.exponent.isSome) &&
      parts.fraction.all (isGrouped Char.isDigit) &&
      parts.exponent.all (fun e => isGrouped Char.isDigit (splitSign e).2) &&
      (negative || !isTooLarge parts))

/-! ## Dates and times -/

/-- The number of two digits, if it is not larger than the limit. -/
def twoDigits? (limit : Nat) (a b : Char) : Option Nat :=
  if a.isDigit && b.isDigit && decimalNumber [a, b] ≤ limit then some (decimalNumber [a, b])
  else none

def daysIn (year month : Nat) : Nat :=
  if month = 2 then
    if year % 4 = 0 && (year % 100 ≠ 0 || year % 400 = 0) then 29 else 28
  else if month = 4 ∨ month = 6 ∨ month = 9 ∨ month = 11 then 30
  else 31

/-- A date at the start of a token and what follows it. -/
def date? : List Char → Option (List Char × List Char)
  | y₁ :: y₂ :: y₃ :: y₄ :: '-' :: m₁ :: m₂ :: '-' :: d₁ :: d₂ :: rest => do
    if !([y₁, y₂, y₃, y₄].all Char.isDigit) then none
    let year := decimalNumber [y₁, y₂, y₃, y₄]
    let month ← twoDigits? 12 m₁ m₂
    let day ← twoDigits? (daysIn year month) d₁ d₂
    if month = 0 ∨ day = 0 then none
    pure ([y₁, y₂, y₃, y₄, '-', m₁, m₂, '-', d₁, d₂], rest)
  | _ => none

/-- The fraction of a second in its usual form: nine digits at most and no zero at the end. -/
def secondFraction (ds : List Char) : List Char :=
  let kept := ((ds.take 9).reverse.dropWhile (· = '0')).reverse
  if kept.isEmpty then [] else '.' :: kept

/-- A time at the start of a token and what follows it. -/
def time? : List Char → Option (List Char × List Char)
  | h₁ :: h₂ :: ':' :: m₁ :: m₂ :: ':' :: s₁ :: s₂ :: rest => do
    let _ ← twoDigits? 23 h₁ h₂
    let _ ← twoDigits? 59 m₁ m₂
    let _ ← twoDigits? 60 s₁ s₂
    let time := [h₁, h₂, ':', m₁, m₂, ':', s₁, s₂]
    match rest with
    | '.' :: rest =>
      let ds := rest.takeWhile Char.isDigit
      if ds.isEmpty then none
      else pure (time ++ secondFraction ds, rest.dropWhile Char.isDigit)
    | rest => pure (time, rest)
  | _ => none

/-- The offset of a time from universal time, which may be missing. -/
def offset? : List Char → Option (List Char)
  | [] => some []
  | ['Z'] | ['z'] => some ['Z']
  | [sign, h₁, h₂, ':', m₁, m₂] => do
    let hours ← twoDigits? 23 h₁ h₂
    let minutes ← twoDigits? 59 m₁ m₂
    if sign = '+' || (sign = '-' && hours = 0 && minutes = 0) then
      pure ['+', h₁, h₂, ':', m₁, m₂]
    else if sign = '-' then pure [sign, h₁, h₂, ':', m₁, m₂]
    else none
  | _ => none

/-- A date, a time or both, in its usual form. -/
def dateTime? (token : List Char) : Option String :=
  match date? token with
  | some (date, []) => some (String.ofList date)
  | some (date, mark :: rest) => do
    if mark ≠ 'T' ∧ mark ≠ 't' then none
    let (time, rest) ← time? rest
    let offset ← offset? rest
    pure (String.ofList (date ++ 'T' :: time ++ offset))
  | none =>
    match time? token with
    | some (time, []) => some (String.ofList time)
    | _ => none

def isDate (token : List Char) : Bool :=
  match date? token with
  | some (_, []) => true
  | _ => false

/-! ## Values -/

/-- The key of a date-time that is read as a table. -/
def dateTimeKey : String := "$__toml_private_datetime"

/-- The value of a token. -/
def scalar? (token : List Char) : Option Json :=
  if token = ['t', 'r', 'u', 'e'] then some (.boolean true)
  else if token = ['f', 'a', 'l', 's', 'e'] then some (.boolean false)
  else if isInteger token || isFloat token then some (.number Binary64.zero)
  else (dateTime? token).map fun text => .object [(dateTimeKey, .text text)]

end Typings.Toml
