/-!
# Finite binary64 numbers

A finite number of the format binary64 is a sign, a significand below `2 ^ 53` and an exponent of
two between `-1074` and `971`. Arithmetic is exact on natural numbers and rounds once, to the
nearest number and, between two of them, to the one with the even significand.

## Main definitions

* `Binary64`: a finite number, with the two zeros apart.
* `Binary64.ofRatio?`: the number nearest to a quotient, if it is not too large.
* `Binary64.ofDecimal?`: the number read from a significand and a power of ten.
-/

namespace Typings

/-- The number `± significand * 2 ^ exponent`. -/
structure Binary64 where
  /-- Whether the sign is minus; zero has a sign, too. -/
  negative : Bool
  /-- The integer part of the scaled number, below `2 ^ 53`. -/
  significand : Nat
  /-- The power of two, at least `-1074`; larger only if the significand has 53 bits. -/
  exponent : Int
  deriving Repr, DecidableEq

namespace Binary64

/-- The positive zero. -/
def zero : Binary64 := ⟨false, 0, -1074⟩

instance : Inhabited Binary64 := ⟨zero⟩

/-- Whether the number is one of the two zeros. -/
def isZero (x : Binary64) : Bool :=
  x.significand == 0

/-- Two numbers are equal if they are the same number; the two zeros are equal. -/
def equal (x y : Binary64) : Bool :=
  x.isZero && y.isZero || decide (x = y)

theorem equal_refl (x : Binary64) : x.equal x = true := by
  simp [equal]

/-- The quotient rounded to the nearest natural number, a half going to the even neighbour. -/
def roundDiv (num den : Nat) : Nat :=
  let quotient := num / den
  let rest := num % den
  if den < 2 * rest ∨ (2 * rest = den ∧ quotient % 2 = 1) then quotient + 1 else quotient

/-- The power of two by which a positive quotient is scaled so that its significand has 53 bits, or
the least one. -/
def scaleOf (num den : Nat) : Int :=
  let magnitude : Int := (num.log2 : Int) - (den.log2 : Int)
  let atLeast := num * Nat.pow 2 (-magnitude).toNat ≥ den * Nat.pow 2 magnitude.toNat
  max (-1074) (if atLeast then magnitude - 52 else magnitude - 53)

/-- The number nearest to `± num / den`; none if it is too large. -/
def ofRatio? (negative : Bool) (num den : Nat) : Option Binary64 :=
  if num = 0 then some { zero with negative }
  else
    let exponent := scaleOf num den
    let significand := roundDiv (num * Nat.pow 2 (-exponent).toNat) (den * Nat.pow 2 exponent.toNat)
    let rounded : Binary64 :=
      if significand = Nat.pow 2 53 then ⟨negative, Nat.pow 2 52, exponent + 1⟩
      else ⟨negative, significand, exponent⟩
    if 971 < rounded.exponent then none else some rounded

/-- The number nearest to a natural number. -/
def ofNat? (n : Nat) : Option Binary64 :=
  ofRatio? false n 1

/-- The magnitude as a quotient of natural numbers. -/
def ratio (x : Binary64) : Nat × Nat :=
  (x.significand * Nat.pow 2 x.exponent.toNat, Nat.pow 2 (-x.exponent).toNat)

/-- The rounded product of the magnitudes. -/
def times? (x y : Binary64) : Option Binary64 :=
  ofRatio? x.negative (x.ratio.1 * y.ratio.1) (x.ratio.2 * y.ratio.2)

/-- The rounded quotient of the magnitudes. -/
def over? (x y : Binary64) : Option Binary64 :=
  ofRatio? x.negative (x.ratio.1 * y.ratio.2) (x.ratio.2 * y.ratio.1)

/-- The largest power of ten below the largest number. -/
def largestPower : Nat := 308

/-- The number scaled by a power of ten: one rounded multiplication, or as many rounded divisions by
powers of ten as it takes to use up the exponent. -/
def scaled? (x : Binary64) (power : Int) : Option Binary64 :=
  if power.natAbs ≤ largestPower then do
    let ten ← ofNat? (Nat.pow 10 power.natAbs)
    if 0 ≤ power then x.times? ten else x.over? ten
  else if x.isZero then some x
  -- the power itself is beyond the largest number
  else if _h : 0 ≤ power then none
  else do
    let ten ← ofNat? (Nat.pow 10 largestPower)
    let smaller ← x.over? ten
    scaled? smaller (power + largestPower)
termination_by power.natAbs
decreasing_by simp only [largestPower]; simp only [largestPower] at *; omega

/-- The number that the decimal `± significand * 10 ^ power` is read as. -/
def ofDecimal? (negative : Bool) (significand : Nat) (power : Int) : Option Binary64 := do
  let whole ← ofNat? significand
  let value ← whole.scaled? power
  pure { value with negative }

end Binary64

end Typings
