import Typings.Decimal.Binary64

/-!
# Shortest decimals

The text of a number has the fewest digits that read back as the number. The reals that round to a
number form an interval; its ends belong to it iff the significand is even. On the coarsest decimal
grid with a point in that interval, the point nearest to the number is written, the upper one of two
that are equally near. The text is positional: no exponent, no point for a whole number.

## Main definitions

* `Interval`: a number with the ends of its interval over a common denominator.
* `Interval.digits`: the point of the coarsest grid.
* `Binary64.text`: the text of a number.
-/

namespace Typings

namespace Decimal

/-- A positive number `value / den` and the interval from `low / den` to `high / den` around it. -/
structure Interval where
  low : Nat
  value : Nat
  high : Nat
  den : Nat
  /-- Whether the ends belong to the interval. -/
  closed : Bool

namespace Interval

/-- The reals that round to the magnitude of a number. Below a power of two the numbers are twice as
dense, so the interval reaches half as far down. -/
def around (x : Binary64) : Interval :=
  let up := Nat.pow 2 (x.exponent - 2).toNat
  let reach := if x.significand = Nat.pow 2 52 ∧ -1074 < x.exponent then 1 else 2
  { low := (4 * x.significand - reach) * up
    value := 4 * x.significand * up
    high := (4 * x.significand + 2) * up
    den := Nat.pow 2 (2 - x.exponent).toNat
    closed := x.significand % 2 == 0 }

/-- Whether the point `n * 10 ^ power` lies in the interval. -/
def covers (i : Interval) (n : Nat) (power : Int) : Bool :=
  let point := n * Nat.pow 10 power.toNat * i.den
  let unit := Nat.pow 10 (-power).toNat
  if i.closed then i.low * unit ≤ point && point ≤ i.high * unit
  else i.low * unit < point && point < i.high * unit

/-- The point of the grid of `10 ^ power` that is written for the interval, if one lies in it. -/
def nearest? (i : Interval) (power : Int) : Option Nat :=
  let num := i.value * Nat.pow 10 (-power).toNat
  let den := i.den * Nat.pow 10 power.toNat
  let below := num / den
  -- of two points the nearer one is written, the upper one if they are equally near
  match i.covers below power, i.covers (below + 1) power with
  | true, true => some (if 2 * (num % den) < den then below else below + 1)
  | true, false => some below
  | false, true => some (below + 1)
  | false, false => none

/-- The first grid with a point in the interval, starting from `10 ^ power` and refining it at most
`steps` times. -/
def refine (i : Interval) (power : Int) : Nat → Nat × Int
  | 0 => (i.value, 0)
  | steps + 1 =>
    match i.nearest? power with
    | some n => (n, power)
    | none => refine i (power - 1) steps

/-- The significand and the power of ten of the shortest decimal in the interval. -/
def digits (i : Interval) : Nat × Int :=
  i.refine (Nat.toDigits 10 (i.value / i.den)).length 1100

end Interval

/-- The positional text of `n * 10 ^ power`. -/
def positional (n : Nat) (power : Int) : List Char :=
  let ds := Nat.toDigits 10 n
  if 0 ≤ power then ds ++ List.replicate power.toNat '0'
  else
    let places := (-power).toNat
    if places < ds.length then
      ds.take (ds.length - places) ++ '.' :: ds.drop (ds.length - places)
    else
      '0' :: '.' :: List.replicate (places - ds.length) '0' ++ ds

end Decimal

namespace Binary64

/-- The text of a number: a sign if it is negative, then its shortest decimal. -/
def text (x : Binary64) : String :=
  let sign := if x.negative then ['-'] else []
  if x.isZero then String.ofList (sign ++ ['0'])
  else
    let (n, power) := (Decimal.Interval.around x).digits
    String.ofList (sign ++ Decimal.positional n power)

end Binary64

end Typings
