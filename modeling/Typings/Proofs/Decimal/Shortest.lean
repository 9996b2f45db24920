import Typings.Decimal.Shortest
import Typings.Proofs.Decimal.Rounding
import Typings.Text.Digits

/-!
# Shortest decimals read back

The grid is refined until one of its points lies in the interval around a number. That happens: a
grid finer than a quarter of the last place has a point between the lower end and the number itself.
The points of the interval are the rationals that are rounded to the number, so the text that is
written for the point reads back.

## Main definitions

* `Decimal.numeral`: digits before and after a point.
* `Binary64.ofNumeral?`: the number that a numeral is read as.

## Main results

* `Decimal.Interval.covers_digits`: the point that is written lies in the interval.
* `Decimal.exists_numeral`: a positional text is a numeral.
* `Binary64.exists_numeral`: the text of a number is its sign and a numeral that is read as its
  magnitude.
-/

namespace Typings

namespace Decimal

namespace Interval

/-! ## Points of an interval -/

variable {i : Interval} {power : ℤ}

theorem covers_iff (hden : 0 < i.den) (n : ℕ) (power : ℤ) :
    i.covers n power = true ↔
      if i.closed then (i.low : ℚ) / i.den ≤ n * 10 ^ power ∧ n * 10 ^ power ≤ (i.high : ℚ) / i.den
      else (i.low : ℚ) / i.den < n * 10 ^ power ∧ n * 10 ^ power < (i.high : ℚ) / i.den := by
  have hdenQ : (0 : ℚ) < i.den := by exact_mod_cast hden
  have hunit : (0 : ℚ) < 10 ^ (-power).toNat := by positivity
  have hpoint : (n : ℚ) * 10 ^ power = n * 10 ^ power.toNat / 10 ^ (-power).toNat := by
    rw [Binary64.zpow_eq_div, mul_div_assoc]
  rw [hpoint]
  unfold covers
  dsimp only
  split
  · rw [div_le_div_iff₀ hdenQ hunit, div_le_div_iff₀ hunit hdenQ, Bool.and_eq_true,
      decide_eq_true_iff, decide_eq_true_iff, Nat.pow_eq, Nat.pow_eq]
    norm_cast
  · rw [div_lt_div_iff₀ hdenQ hunit, div_lt_div_iff₀ hunit hdenQ, Bool.and_eq_true,
      decide_eq_true_iff, decide_eq_true_iff, Nat.pow_eq, Nat.pow_eq]
    norm_cast

theorem covers_of_nearest? {n : ℕ} (h : i.nearest? power = some n) : i.covers n power = true := by
  unfold nearest? at h
  dsimp only at h
  split at h
  case h_1 hbelow habove =>
    obtain rfl := Option.some.inj h
    split
    · exact hbelow
    · exact habove
  case h_2 hbelow habove =>
    obtain rfl := Option.some.inj h
    exact hbelow
  case h_3 hbelow habove =>
    obtain rfl := Option.some.inj h
    exact habove
  case h_4 => cases h

/-- A grid that is finer than the lower half of the interval has a point in it. -/
theorem nearest?_ne_none (hden : 0 < i.den)
    (hlow : (i.low : ℚ) / i.den + 10 ^ power ≤ (i.value : ℚ) / i.den) (hhigh : i.value < i.high) :
    i.nearest? power ≠ none := by
  have hdenQ : (0 : ℚ) < i.den := by exact_mod_cast hden
  have hgrid : (0 : ℚ) < 10 ^ power := zpow_pos (by norm_num) _
  set num := i.value * Nat.pow 10 (-power).toNat with hnum
  set den := i.den * Nat.pow 10 power.toNat with hden'
  have hpos : 0 < den := Nat.mul_pos hden (Nat.pow_pos (by norm_num))
  have hscaled : (num : ℚ) / den = (i.value : ℚ) / i.den / 10 ^ power :=
    Binary64.scaled_div_base 10 i.value i.den power
  have hcovers : i.covers (num / den) power = true := by
    have hle : ((num / den : ℕ) : ℚ) * 10 ^ power ≤ (i.value : ℚ) / i.den := by
      rw [← le_div_iff₀ hgrid, ← hscaled]
      exact Nat.cast_div_le
    have hgt : (i.value : ℚ) / i.den < (((num / den : ℕ) : ℚ) + 1) * 10 ^ power := by
      rw [← div_lt_iff₀ hgrid, ← hscaled, div_lt_iff₀ (by exact_mod_cast hpos), mul_comm]
      exact_mod_cast Nat.lt_mul_div_succ num hpos
    have hvalue : (i.value : ℚ) / i.den < (i.high : ℚ) / i.den := by
      gcongr
    rw [covers_iff hden]
    split
    · constructor <;> linarith
    · constructor <;> linarith
  unfold nearest?
  simp only [← hnum, ← hden', hcovers]
  split <;> simp_all

theorem covers_refine {steps : ℕ} {k : ℕ} (hk : k < steps)
    (hpoint : i.nearest? (power - k) ≠ none) :
    i.covers (i.refine power steps).1 (i.refine power steps).2 = true := by
  induction steps generalizing power k with
  | zero => omega
  | succ steps ih =>
    unfold refine
    split
    case h_1 n hn => exact covers_of_nearest? hn
    case h_2 hn =>
      obtain _ | k := k
      · simp [hn] at hpoint
      · apply ih (k := k) (by omega)
        have hshift : power - 1 - (k : ℤ) = power - ((k + 1 : ℕ) : ℤ) := by omega
        rw [hshift]
        exact hpoint

/-! ## The interval around a number -/

section Around

variable {x : Binary64}

theorem around_den_pos (x : Binary64) : 0 < (around x).den :=
  Nat.pow_pos two_pos

/-- A multiple of a quarter of the last place as a quotient. -/
theorem quarters_div (k : ℕ) (e : ℤ) :
    ((k * Nat.pow 2 (e - 2).toNat : ℕ) : ℚ) / ((Nat.pow 2 (2 - e).toNat : ℕ) : ℚ) =
      k / 4 * 2 ^ e := by
  have hneg : 2 - e = -(e - 2) := by omega
  have hsplit : (2 : ℚ) ^ e = 4 * 2 ^ (e - 2) := by
    rw [zpow_sub₀ two_ne_zero]
    norm_num
    ring
  rw [hsplit, hneg, Binary64.zpow_eq_div, Nat.pow_eq, Nat.pow_eq]
  push_cast
  ring

theorem around_value_div (x : Binary64) :
    ((around x).value : ℚ) / (around x).den = x.significand * 2 ^ x.exponent := by
  unfold around
  dsimp only
  rw [quarters_div]
  push_cast
  ring

theorem around_high_div (x : Binary64) :
    ((around x).high : ℚ) / (around x).den = (x.significand + 1 / 2) * 2 ^ x.exponent := by
  unfold around
  dsimp only
  rw [quarters_div]
  push_cast
  ring

theorem around_low_div (hpos : 0 < x.significand) :
    ((around x).low : ℚ) / (around x).den = (x.significand - x.reachBelow) * 2 ^ x.exponent := by
  unfold around Binary64.reachBelow
  dsimp only
  rw [quarters_div, Nat.pow_eq]
  split
  · rw [Nat.cast_sub (by omega)]
    push_cast
    ring
  · rw [Nat.cast_sub (by omega)]
    push_cast
    ring

/-- The points of the interval around a number are rounded to it. -/
theorem attracts_of_covers (hpos : 0 < x.significand) {n : ℕ} {power : ℤ}
    (h : (around x).covers n power = true) : x.Attracts ((n : ℚ) * 10 ^ power) := by
  rw [covers_iff (around_den_pos x), around_low_div hpos, around_high_div] at h
  have hclosed : (around x).closed = (x.significand % 2 == 0) := rfl
  rw [hclosed] at h
  split at h
  case isTrue heven =>
    rw [beq_iff_eq] at heven
    exact ⟨h.1, h.2, fun hodd => by omega⟩
  case isFalse => exact ⟨h.1.le, h.2.le, fun _ => h⟩

/-- The whole part of a number of the format has few digits. -/
theorem length_whole_le (hx : x.InFormat) :
    (Nat.toDigits 10 ((around x).value / (around x).den)).length ≤ 342 := by
  rw [Nat.length_toDigits_le_iff (by norm_num) (by norm_num)]
  have hup : (x.exponent - 2).toNat ≤ 969 := by
    have := hx.exponent_le
    omega
  have hten (j : ℕ) : 2 ^ (3 * j) ≤ 10 ^ j := by
    rw [pow_mul]
    exact Nat.pow_le_pow_left (by norm_num) j
  calc (around x).value / (around x).den ≤ (around x).value := Nat.div_le_self _ _
    _ = 4 * x.significand * 2 ^ (x.exponent - 2).toNat := rfl
    _ ≤ 4 * x.significand * 2 ^ 969 := by gcongr; norm_num
    _ < 2 ^ 2 * 2 ^ 53 * 2 ^ 969 := by
      have hquarters : 4 * x.significand < 2 ^ 2 * 2 ^ 53 := by
        have := hx.significand_lt
        omega
      gcongr
    _ = 2 ^ (2 + 53 + 969) := by rw [← pow_add, ← pow_add]
    _ ≤ 2 ^ (3 * 342) := by gcongr <;> norm_num
    _ ≤ 10 ^ 342 := hten 342

/-- A quarter of the last place is coarser than some grid. -/
theorem exists_grid_le (hx : x.InFormat) :
    ∃ k : ℕ, k ≤ 432 ∧ (10 : ℚ) ^ (-(k : ℤ)) ≤ 2 ^ (x.exponent - 2) := by
  have hten (j : ℕ) : (10 : ℚ) ^ (-((4 * j : ℕ) : ℤ)) ≤ 2 ^ (-((10 * j : ℕ) : ℤ)) := by
    rw [zpow_neg, zpow_neg, zpow_natCast, zpow_natCast, pow_mul, pow_mul]
    gcongr
    norm_num
  refine ⟨4 * 108, by norm_num, (hten 108).trans ?_⟩
  apply zpow_le_zpow_right₀ one_le_two
  have := hx.le_exponent
  omega

/-- The point that is written for a number lies in the interval around it. -/
theorem covers_digits (hx : x.InFormat) (hpos : 0 < x.significand) :
    (around x).covers (around x).digits.1 (around x).digits.2 = true := by
  obtain ⟨k, hk, hgrid⟩ := exists_grid_le hx
  set places := (Nat.toDigits 10 ((around x).value / (around x).den)).length with hplaces
  have hsteps : places + k < 1100 := by
    have := length_whole_le hx
    omega
  have hfine : (around x).nearest? (-(k : ℤ)) ≠ none := by
    apply nearest?_ne_none (around_den_pos x)
    · have hquarter : (2 : ℚ) ^ (x.exponent - 2) = 1 / 4 * 2 ^ x.exponent := by
        rw [zpow_sub₀ two_ne_zero]
        norm_num
        ring
      have hreach : 1 / 4 ≤ x.reachBelow := by
        unfold Binary64.reachBelow
        split <;> norm_num
      have hstep : (0 : ℚ) < 2 ^ x.exponent := zpow_pos two_pos _
      rw [around_low_div hpos, around_value_div]
      rw [hquarter] at hgrid
      nlinarith
    · have hup : 0 < Nat.pow 2 (x.exponent - 2).toNat := Nat.pow_pos two_pos
      unfold around
      dsimp only
      nlinarith
  unfold digits
  apply covers_refine hsteps
  have hpower : (places : ℤ) - ((places + k : ℕ) : ℤ) = -(k : ℤ) := by omega
  rw [← hplaces, hpower]
  exact hfine

end Around

end Interval

/-! ## Positional texts -/

/-- Digits, followed by a point and more digits if there are any. -/
def numeral (whole fraction : List Char) : List Char :=
  whole ++ if fraction = [] then [] else '.' :: fraction

theorem decimalNumber_append (ds es : List Char) :
    Text.decimalNumber (ds ++ es) = Nat.ofDigitChars 10 es (Text.decimalNumber ds) := by
  rw [Nat.ofDigitChars_eq_foldl]
  exact List.foldl_append

theorem decimalNumber_toDigits (n : ℕ) : Text.decimalNumber (Nat.toDigits 10 n) = n := by
  have h := Nat.ofDigitChars_ten_toDigits (n := n)
  rw [Nat.ofDigitChars_eq_foldl] at h
  exact h

theorem decimalNumber_replicate_append (k : ℕ) (ds : List Char) :
    Text.decimalNumber (List.replicate k '0' ++ ds) = Text.decimalNumber ds := by
  have hzero : Text.decimalNumber (List.replicate k '0') = 0 := by
    have h := decimalNumber_append [] (List.replicate k '0')
    rwa [Nat.ofDigitChars_replicate_zero] at h
  rw [decimalNumber_append, hzero, Nat.ofDigitChars_eq_foldl]
  rfl

/-- The positional text of `n * 10 ^ power` is a numeral with this value. -/
theorem exists_numeral (n : ℕ) (power : ℤ) :
    ∃ whole fraction, positional n power = numeral whole fraction ∧ whole ≠ [] ∧
      (∀ c ∈ whole ++ fraction, c.isDigit = true) ∧
      (Text.decimalNumber (whole ++ fraction) : ℚ) / (10 ^ fraction.length : ℕ) =
        n * 10 ^ power := by
  have hdigits : ∀ c ∈ Nat.toDigits 10 n, c.isDigit = true := fun c hc =>
    Nat.isDigit_of_mem_toDigits (by norm_num) (by norm_num) hc
  have hzeros (k : ℕ) : ∀ c ∈ List.replicate k '0', c.isDigit = true := by
    intro c hc
    rw [List.eq_of_mem_replicate hc]
    rfl
  have hne : Nat.toDigits 10 n ≠ [] := Nat.toDigits_ne_nil
  unfold positional
  generalize hds : Nat.toDigits 10 n = ds at hdigits hne
  have hvalue : Text.decimalNumber ds = n := by rw [← hds, decimalNumber_toDigits]
  dsimp only
  by_cases hpower : 0 ≤ power
  · refine ⟨ds ++ List.replicate power.toNat '0', [], ?_, by simp [hne], ?_, ?_⟩
    · rw [if_pos hpower, numeral, if_pos rfl, List.append_nil]
    · simp only [List.append_nil, List.mem_append]
      rintro c (hc | hc)
      · exact hdigits c hc
      · exact hzeros _ c hc
    · rw [List.append_nil, decimalNumber_append, hvalue, Nat.ofDigitChars_replicate_zero]
      rw [List.length_nil, pow_zero, Nat.cast_one, div_one, Nat.cast_mul, mul_comm]
      congr 1
      rw [Nat.cast_pow, ← zpow_natCast, Int.toNat_of_nonneg hpower]
      norm_cast
  · obtain ⟨places, hplaces⟩ : ∃ places : ℕ, power = -(places : ℤ) := ⟨(-power).toNat, by omega⟩
    have hplaces' : (-power).toNat = places := by omega
    have hscaled : (n : ℚ) / (10 ^ places : ℕ) = n * 10 ^ power := by
      rw [hplaces, zpow_neg, zpow_natCast, Nat.cast_pow]
      rfl
    rw [if_neg hpower, hplaces']
    by_cases hlong : places < ds.length
    · have hlength : (ds.drop (ds.length - places)).length = places := by
        rw [List.length_drop]
        omega
      have hfraction : ds.drop (ds.length - places) ≠ [] := by
        intro hnil
        rw [hnil, List.length_nil] at hlength
        omega
      refine ⟨ds.take (ds.length - places), ds.drop (ds.length - places), ?_, ?_, ?_, ?_⟩
      · rw [if_pos hlong, numeral, if_neg hfraction]
      · rw [Ne, List.take_eq_nil_iff, not_or]
        exact ⟨by omega, hne⟩
      · rwa [List.take_append_drop]
      · rw [List.take_append_drop, hvalue, hlength, hscaled]
    · refine ⟨['0'], List.replicate (places - ds.length) '0' ++ ds, ?_, by simp, ?_, ?_⟩
      · rw [if_neg hlong, numeral, if_neg (by simp [hne])]
        rfl
      · simp only [List.singleton_append, List.mem_cons, List.mem_append]
        rintro c (rfl | hc | hc)
        · rfl
        · exact hzeros _ c hc
        · exact hdigits c hc
      · have hlength : (List.replicate (places - ds.length) '0' ++ ds).length = places := by
          rw [List.length_append, List.length_replicate]
          omega
        have hzero :=
          decimalNumber_replicate_append 1 (List.replicate (places - ds.length) '0' ++ ds)
        rw [List.replicate_one] at hzero
        rw [hzero, decimalNumber_replicate_append, hvalue, hlength, hscaled]

end Decimal

namespace Binary64

/-- The number that a numeral is read as; none if it is too large. -/
def ofNumeral? (whole fraction : List Char) : Option Binary64 :=
  ofRatio? false (Text.decimalNumber (whole ++ fraction)) (10 ^ fraction.length)

/-- The text of a number is its sign and a numeral that is read as its magnitude. -/
theorem exists_numeral {x : Binary64} (hx : x.InFormat) :
    ∃ whole fraction,
      x.text.toList = (if x.negative then ['-'] else []) ++ Decimal.numeral whole fraction ∧
      whole ≠ [] ∧ (∀ c ∈ whole ++ fraction, c.isDigit = true) ∧
      ofNumeral? whole fraction = some { x with negative := false } := by
  by_cases hzero : x.significand = 0
  · have hleast : x.exponent = -1074 := by
      by_contra hne
      have hgt := hx.le_significand (lt_of_le_of_ne hx.le_exponent (Ne.symm hne))
      rw [hzero] at hgt
      norm_num at hgt
    refine ⟨['0'], [], ?_, by simp, by simp [Char.isDigit], ?_⟩
    · simp [text, isZero, hzero, Decimal.numeral]
    · rw [ofNumeral?, hleast, hzero]
      rfl
  · have hpos : 0 < x.significand := Nat.pos_of_ne_zero hzero
    obtain ⟨whole, fraction, htext, hne, hdigits, hvalue⟩ :=
      Decimal.exists_numeral (Decimal.Interval.around x).digits.1
        (Decimal.Interval.around x).digits.2
    refine ⟨whole, fraction, ?_, hne, hdigits, ?_⟩
    · simp [text, isZero, hzero, htext]
    · have hattracts :=
        Decimal.Interval.attracts_of_covers hpos (Decimal.Interval.covers_digits hx hpos)
      rw [← hvalue] at hattracts
      have hmagnitude : InFormat { x with negative := false } :=
        ⟨hx.significand_lt, hx.le_exponent, hx.exponent_le, hx.le_significand⟩
      have hattracts' : Attracts { x with negative := false }
          ((Text.decimalNumber (whole ++ fraction) : ℚ) / (10 ^ fraction.length : ℕ)) :=
        ⟨hattracts.le, hattracts.ge, hattracts.odd⟩
      exact ofRatio?_of_attracts hmagnitude (Nat.pow_pos (by norm_num)) hattracts' hpos

end Binary64

end Typings
