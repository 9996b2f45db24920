import Mathlib
import Typings.Decimal.Binary64

/-!
# Rounding to the nearest number

A quotient is rounded in two steps: its magnitude gives the exponent, and the scaled quotient is
rounded to a natural number. What lies nearer to a number of the format than to its neighbours, or
as near as to one of them if the significand is even, is rounded to that number. At a power of two
the neighbour below is only half as far away, and a quotient between the two has the smaller
exponent until it is rounded up.

## Main definitions

* `Binary64.InFormat`: the bounds on significand and exponent.
* `Binary64.Attracts`: the rational numbers that are rounded to a number.

## Main results

* `Binary64.scaleOf_eq`: the exponent of a quotient.
* `Binary64.ofRatio?_of_attracts`: what a number attracts is rounded to it.
-/

namespace Typings.Binary64

/-- Whether a number is one of the format: the significand has 53 bits, and fewer only with the
least exponent. -/
structure InFormat (x : Binary64) : Prop where
  significand_lt : x.significand < 2 ^ 53
  le_exponent : -1074 ≤ x.exponent
  exponent_le : x.exponent ≤ 971
  le_significand : -1074 < x.exponent → 2 ^ 52 ≤ x.significand

/-! ## Powers -/

/-- A power with an integer exponent as a quotient of powers with natural ones. -/
theorem zpow_eq_div (b : ℚ) (e : ℤ) : b ^ e = b ^ e.toNat / b ^ (-e).toNat := by
  rcases le_total 0 e with he | he
  · have hneg : (-e).toNat = 0 := by omega
    rw [hneg, pow_zero, div_one, ← zpow_natCast, Int.toNat_of_nonneg he]
  · have hpos : e.toNat = 0 := by omega
    rw [hpos, pow_zero, one_div, ← zpow_natCast, ← zpow_neg, Int.toNat_of_nonneg (by omega),
      neg_neg]

/-- Scaling a quotient by a power in natural numbers. -/
theorem scaled_div_base (b num den : ℕ) (e : ℤ) :
    ((num * Nat.pow b (-e).toNat : ℕ) : ℚ) / ((den * Nat.pow b e.toNat : ℕ) : ℚ) =
      (num : ℚ) / den / (b : ℚ) ^ e := by
  rw [zpow_eq_div, Nat.pow_eq, Nat.pow_eq]
  push_cast
  rw [div_div_eq_mul_div, div_mul_eq_mul_div, div_div]

theorem scaled_div (num den : ℕ) (e : ℤ) :
    ((num * Nat.pow 2 (-e).toNat : ℕ) : ℚ) / ((den * Nat.pow 2 e.toNat : ℕ) : ℚ) =
      (num : ℚ) / den / 2 ^ e :=
  scaled_div_base 2 num den e

/-! ## Rounding to a natural number -/

/-- A quotient is rounded to a number that is at most a half away, an even one if it is a half. -/
theorem roundDiv_eq {num den m : ℕ} (hden : 0 < den) (hlow : (m : ℚ) - 1 / 2 ≤ (num : ℚ) / den)
    (hhigh : (num : ℚ) / den ≤ m + 1 / 2)
    (htie : m % 2 = 1 → (m : ℚ) - 1 / 2 < (num : ℚ) / den ∧ (num : ℚ) / den < m + 1 / 2) :
    roundDiv num den = m := by
  have hdenQ : (0 : ℚ) < den := by exact_mod_cast hden
  rw [le_div_iff₀ hdenQ] at hlow
  rw [div_le_iff₀ hdenQ] at hhigh
  rw [lt_div_iff₀ hdenQ, div_lt_iff₀ hdenQ] at htie
  have hlow' : 2 * (m * den) ≤ 2 * num + den := by
    have h : (2 * (m * den) : ℚ) ≤ 2 * num + den := by linarith
    exact_mod_cast h
  have hhigh' : 2 * num ≤ 2 * (m * den) + den := by
    have h : (2 * num : ℚ) ≤ 2 * (m * den) + den := by linarith
    exact_mod_cast h
  have htie' : m % 2 = 1 → 2 * (m * den) < 2 * num + den ∧ 2 * num < 2 * (m * den) + den := by
    intro hodd
    obtain ⟨hl, hh⟩ := htie hodd
    have hl' : (2 * (m * den) : ℚ) < 2 * num + den := by linarith
    have hh' : (2 * num : ℚ) < 2 * (m * den) + den := by linarith
    exact ⟨by exact_mod_cast hl', by exact_mod_cast hh'⟩
  have hsplit : num = den * (num / den) + num % den := (Nat.div_add_mod num den).symm
  have hrest : num % den < den := Nat.mod_lt num hden
  unfold roundDiv
  generalize num / den = k at hsplit ⊢
  generalize num % den = r at hsplit hrest ⊢
  subst hsplit
  have hle : m ≤ k + 1 := by
    by_contra hgt
    have hmul : (k + 2) * den ≤ m * den := Nat.mul_le_mul_right den (by omega)
    nlinarith
  have hge : k ≤ m := by
    by_contra hlt
    have hmul : (m + 1) * den ≤ k * den := Nat.mul_le_mul_right den (by omega)
    nlinarith
  dsimp only
  rcases Nat.eq_or_lt_of_le hge with rfl | hlt
  · have hrest' : 2 * r ≤ den := by nlinarith
    rw [if_neg]
    rintro (hgt | ⟨heq, hodd⟩)
    · omega
    · have := (htie' hodd).2
      nlinarith
  · obtain rfl : m = k + 1 := by omega
    have hrest' : den ≤ 2 * r := by nlinarith
    rw [if_pos]
    rcases Nat.eq_or_lt_of_le hrest' with heq | hgt
    · refine .inr ⟨heq.symm, ?_⟩
      by_contra heven
      have := (htie' (by omega)).1
      nlinarith
    · exact .inl hgt

/-! ## The exponent of a quotient -/

/-- The exponent is chosen by the power of two below the quotient. -/
theorem scaleOf_eq {num den : ℕ} (hnum : 0 < num) (hden : 0 < den) {k : ℤ}
    (hlow : (2 : ℚ) ^ k ≤ (num : ℚ) / den) (hhigh : (num : ℚ) / den < 2 ^ (k + 1)) :
    scaleOf num den = max (-1074) (k - 52) := by
  have hdenQ : (0 : ℚ) < den := by exact_mod_cast hden
  have hone : (1 : ℚ) < 2 := one_lt_two
  set magnitude : ℤ := (num.log2 : ℤ) - (den.log2 : ℤ) with hmagnitude
  have hupper : (num : ℚ) / den < 2 ^ (magnitude + 1) := by
    have hn : (num : ℚ) < 2 ^ ((num.log2 : ℤ) + 1) := by exact_mod_cast Nat.lt_log2_self
    have hd : (2 : ℚ) ^ (den.log2 : ℤ) ≤ den := by exact_mod_cast Nat.log2_self_le hden.ne'
    rw [div_lt_iff₀ hdenQ]
    calc (num : ℚ) < 2 ^ ((num.log2 : ℤ) + 1) := hn
      _ = 2 ^ (magnitude + 1) * 2 ^ (den.log2 : ℤ) := by
        rw [← zpow_add₀ two_ne_zero, hmagnitude]
        congr 1
        omega
      _ ≤ 2 ^ (magnitude + 1) * den := by gcongr
  have hlower : (2 : ℚ) ^ (magnitude - 1) < (num : ℚ) / den := by
    have hn : (2 : ℚ) ^ (num.log2 : ℤ) ≤ num := by exact_mod_cast Nat.log2_self_le hnum.ne'
    have hd : (den : ℚ) < 2 ^ ((den.log2 : ℤ) + 1) := by exact_mod_cast Nat.lt_log2_self
    rw [lt_div_iff₀ hdenQ]
    calc (2 : ℚ) ^ (magnitude - 1) * den
        < 2 ^ (magnitude - 1) * 2 ^ ((den.log2 : ℤ) + 1) := by gcongr
      _ = 2 ^ (num.log2 : ℤ) := by
        rw [← zpow_add₀ two_ne_zero, hmagnitude]
        congr 1
        omega
      _ ≤ num := hn
  have hatLeast : num * Nat.pow 2 (-magnitude).toNat ≥ den * Nat.pow 2 magnitude.toNat ↔
      (2 : ℚ) ^ magnitude ≤ (num : ℚ) / den := by
    have hscaled : (0 : ℚ) < ((den * Nat.pow 2 magnitude.toNat : ℕ) : ℚ) := by
      exact_mod_cast Nat.mul_pos hden (Nat.pow_pos two_pos)
    rw [← one_le_div (zpow_pos two_pos magnitude), ← scaled_div, one_le_div hscaled, Nat.cast_le]
  unfold scaleOf
  simp only [← hmagnitude, hatLeast]
  split
  case isTrue h =>
    have h1 : magnitude < k + 1 := (zpow_lt_zpow_iff_right₀ hone).mp (h.trans_lt hhigh)
    have h2 : k < magnitude + 1 := (zpow_lt_zpow_iff_right₀ hone).mp (hlow.trans_lt hupper)
    congr 1
    omega
  case isFalse h =>
    rw [not_le] at h
    have h1 : k < magnitude := (zpow_lt_zpow_iff_right₀ hone).mp (hlow.trans_lt h)
    have h2 : magnitude - 1 < k + 1 := (zpow_lt_zpow_iff_right₀ hone).mp (hlower.trans hhigh)
    congr 1
    omega

/-! ## Attraction -/

/-- How far below a number the quotients reach that are rounded to it, in units of the last place.
The numbers below a power of two are twice as dense. -/
def reachBelow (x : Binary64) : ℚ :=
  if x.significand = 2 ^ 52 ∧ -1074 < x.exponent then 1 / 4 else 1 / 2

/-- Whether a rational number is rounded to the magnitude of a number: it is no farther away than
half of the way to a neighbour, and less than that if the significand is odd. -/
structure Attracts (x : Binary64) (q : ℚ) : Prop where
  le : (x.significand - x.reachBelow) * 2 ^ x.exponent ≤ q
  ge : q ≤ (x.significand + 1 / 2) * 2 ^ x.exponent
  odd : x.significand % 2 = 1 → (x.significand - x.reachBelow) * 2 ^ x.exponent < q ∧
    q < (x.significand + 1 / 2) * 2 ^ x.exponent

/-- The quotient is rounded with the exponent of the number. -/
theorem roundDiv_of_attracts {x : Binary64} {num den : ℕ} (hden : 0 < den)
    (hattracts : x.Attracts ((num : ℚ) / den)) :
    roundDiv (num * Nat.pow 2 (-x.exponent).toNat) (den * Nat.pow 2 x.exponent.toNat) =
      x.significand := by
  have hstep : (0 : ℚ) < 2 ^ x.exponent := zpow_pos two_pos _
  have hreach : x.reachBelow ≤ 1 / 2 := by
    unfold reachBelow
    split <;> norm_num
  have hscaled : 0 < den * Nat.pow 2 x.exponent.toNat := Nat.mul_pos hden (Nat.pow_pos two_pos)
  apply roundDiv_eq hscaled
  · rw [scaled_div, le_div_iff₀ hstep]
    refine le_trans ?_ hattracts.le
    gcongr
  · rw [scaled_div, div_le_iff₀ hstep]
    exact hattracts.ge
  · intro hodd
    rw [scaled_div, lt_div_iff₀ hstep, div_lt_iff₀ hstep]
    refine ⟨lt_of_le_of_lt ?_ (hattracts.odd hodd).1, (hattracts.odd hodd).2⟩
    gcongr

section Attracted

variable {x : Binary64} (hx : x.InFormat) {num den : ℕ} (hden : 0 < den)
  (hattracts : x.Attracts ((num : ℚ) / den))

include hx hden hattracts

/-- With the least exponent, or above the power of two that the significand starts from, the
quotient has the exponent of the number. -/
theorem scaleOf_of_attracts (hnum : 0 < num)
    (h : x.exponent = -1074 ∨ (2 : ℚ) ^ (x.exponent + 52) ≤ (num : ℚ) / den) :
    scaleOf num den = x.exponent := by
  have hone : (1 : ℚ) < 2 := one_lt_two
  have hq : (0 : ℚ) < (num : ℚ) / den := div_pos (by exact_mod_cast hnum) (by exact_mod_cast hden)
  have hbelow : (num : ℚ) / den < 2 ^ (x.exponent + 53) := by
    have hsignificand : (x.significand : ℚ) + 1 ≤ 2 ^ 53 := by exact_mod_cast hx.significand_lt
    calc (num : ℚ) / den ≤ (x.significand + 1 / 2) * 2 ^ x.exponent := hattracts.ge
      _ < 2 ^ 53 * 2 ^ x.exponent := by
        gcongr
        linarith
      _ = 2 ^ (x.exponent + 53) := by
        rw [zpow_add₀ two_ne_zero, mul_comm]
        norm_cast
  have hlow := Int.zpow_log_le_self one_lt_two hq
  have hhigh := Int.lt_zpow_succ_log_self one_lt_two ((num : ℚ) / den)
  set k := Int.log 2 ((num : ℚ) / den)
  have hk : k < x.exponent + 53 := (zpow_lt_zpow_iff_right₀ hone).mp (hlow.trans_lt hbelow)
  rw [scaleOf_eq hnum hden hlow hhigh]
  rcases h with hleast | hnormal
  · rw [hleast] at hk ⊢
    omega
  · have hk' : x.exponent + 52 < k + 1 := (zpow_lt_zpow_iff_right₀ hone).mp (hnormal.trans_lt hhigh)
    have hleast := hx.le_exponent
    omega

/-- Below a power of two the quotient has the exponent before and is rounded up to the power. -/
theorem round_below_power (hnum : 0 < num) (hleast : -1074 < x.exponent)
    (hbelow : (num : ℚ) / den < 2 ^ (x.exponent + 52)) :
    x.significand = 2 ^ 52 ∧ scaleOf num den = x.exponent - 1 ∧
      roundDiv (num * Nat.pow 2 (-(x.exponent - 1)).toNat)
        (den * Nat.pow 2 (x.exponent - 1).toNat) = 2 ^ 53 := by
  have hstep : (0 : ℚ) < 2 ^ x.exponent := zpow_pos two_pos _
  have hpower : (2 : ℚ) ^ (x.exponent + 52) = 2 ^ 52 * 2 ^ x.exponent := by
    rw [zpow_add₀ two_ne_zero, mul_comm]
    norm_cast
  rw [hpower] at hbelow
  have hlt : ((x.significand : ℚ) - x.reachBelow) < 2 ^ 52 :=
    lt_of_mul_lt_mul_right (hattracts.le.trans_lt hbelow) hstep.le
  have hpow : x.significand = 2 ^ 52 := by
    by_contra hne
    have hgt : 2 ^ 52 + 1 ≤ x.significand := by
      have := hx.le_significand hleast
      omega
    have hgt' : (2 : ℚ) ^ 52 + 1 ≤ x.significand := by exact_mod_cast hgt
    rw [reachBelow, if_neg fun h => hne h.1] at hlt
    linarith
  have hreach : x.reachBelow = 1 / 4 := if_pos ⟨hpow, hleast⟩
  have hlow := hattracts.le
  rw [hreach, hpow] at hlow
  push_cast at hlow
  refine ⟨hpow, ?_, ?_⟩
  · have hscale : scaleOf num den = max (-1074) (x.exponent + 51 - 52) := by
      apply scaleOf_eq hnum hden
      · rw [zpow_add₀ two_ne_zero, mul_comm]
        refine le_trans ?_ hlow
        gcongr
        norm_num
      · have hnext : x.exponent + 51 + 1 = x.exponent + 52 := by omega
        rw [hnext, hpower]
        exact hbelow
    rw [hscale]
    omega
  · have hhalf : (2 : ℚ) ^ x.exponent = 2 * 2 ^ (x.exponent - 1) := by
      rw [zpow_sub_one₀ two_ne_zero]
      ring
    have hstep' : (0 : ℚ) < 2 ^ (x.exponent - 1) := zpow_pos two_pos _
    have hscaled : 0 < den * Nat.pow 2 (x.exponent - 1).toNat :=
      Nat.mul_pos hden (Nat.pow_pos two_pos)
    rw [hhalf] at hlow hbelow
    apply roundDiv_eq hscaled
    · rw [scaled_div, le_div_iff₀ hstep']
      push_cast
      linarith
    · rw [scaled_div, div_le_iff₀ hstep']
      push_cast
      linarith
    · intro hodd
      exact absurd hodd (by decide)

/-- What a number of the format attracts is rounded to it. -/
theorem ofRatio?_of_attracts (hpos : 0 < x.significand) : ofRatio? x.negative num den = some x := by
  have hdenQ : (0 : ℚ) < den := by exact_mod_cast hden
  have hnum : 0 < num := by
    have hlow : (0 : ℚ) < (x.significand - x.reachBelow) * 2 ^ x.exponent := by
      apply mul_pos _ (zpow_pos two_pos _)
      have hone : (1 : ℚ) ≤ x.significand := by exact_mod_cast hpos
      unfold reachBelow
      split <;> linarith
    have hq := hlow.trans_le hattracts.le
    rw [lt_div_iff₀ hdenQ, zero_mul] at hq
    exact_mod_cast hq
  unfold ofRatio?
  rw [if_neg hnum.ne']
  dsimp only
  by_cases hcase : x.exponent = -1074 ∨ (2 : ℚ) ^ (x.exponent + 52) ≤ (num : ℚ) / den
  · have hcarry : x.significand ≠ Nat.pow 2 53 := hx.significand_lt.ne
    rw [scaleOf_of_attracts hx hden hattracts hnum hcase, roundDiv_of_attracts hden hattracts]
    simp only [if_neg hcarry, if_neg hx.exponent_le.not_gt]
  · rw [not_or, not_le] at hcase
    have hleast : -1074 < x.exponent := lt_of_le_of_ne hx.le_exponent (Ne.symm hcase.1)
    obtain ⟨hpow, hscale, hround⟩ := round_below_power hx hden hattracts hnum hleast hcase.2
    have hcarry : 2 ^ 53 = Nat.pow 2 53 := rfl
    have hsignificand : Nat.pow 2 52 = x.significand := hpow.symm
    rw [hscale, hround]
    simp only [if_pos hcarry, Int.sub_add_cancel, if_neg hx.exponent_le.not_gt, hsignificand]

end Attracted

end Typings.Binary64
