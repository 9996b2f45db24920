import Typings.Identifier
import Typings.Text.Blank

/-!
# Word characters among those of identifiers

A character of an identifier is a word character unless it is the dollar sign, a number that is no
digit, or one that Unicode 17 adds. The upper-case form of a word character avoids all three, but
for two letters: their counterparts are younger than they are.

## Main definitions

* `CharSet.misses`: a set of characters holds no code point between two bounds. The tables are
  compared run by run with it.
* `isUnusual`: the three kinds of exceptions.

## Main results

* `isBlank_eq_false_of_isWord`: a blank is no word character.
* `isWord_of_mem_upper`: what an identifier can hold of the upper-case form of a word character.
-/

namespace Typings.Text

/-! ## Ranges of code points -/

/-- Whether none of the increasing ranges meets the code points from `first` to `last`. -/
def rangesMiss (first last : Nat) : List (Nat × Nat) → Bool
  | [] => true
  | (lower, upper) :: rest => last.blt lower || upper.blt first && rangesMiss first last rest

/-- Whether the set holds no code point from `first` to `last`. -/
def CharSet.misses (set : CharSet) (first last : Nat) : Bool :=
  rangesMiss first last set.ranges

variable {c : Char} {n : Nat}

theorem inRanges_eq_false_of_rangesMiss {first last : Nat} {ranges : List (Nat × Nat)}
    (hmiss : rangesMiss first last ranges = true) (hfirst : first ≤ n) (hlast : n ≤ last) :
    inRanges n ranges = false := by
  induction ranges with
  | nil => rfl
  | cons range rest ih =>
    simp only [rangesMiss, Bool.or_eq_true, Bool.and_eq_true, Nat.blt_eq] at hmiss
    simp only [inRanges, Bool.and_eq_false_iff, Bool.or_eq_false_iff, Bool.not_eq_false',
      decide_eq_true_eq, decide_eq_false_iff_not]
    rcases hmiss with habove | ⟨hbelow, hrest⟩
    · exact .inl (by omega)
    · exact .inr ⟨by omega, ih hrest⟩

theorem CharSet.contains_eq_false_of_misses {set : CharSet} {first last : Nat}
    (hmisses : set.misses first last = true) (hfirst : first ≤ c.toNat) (hlast : c.toNat ≤ last) :
    set.contains c = false :=
  inRanges_eq_false_of_rangesMiss hmisses hfirst hlast

theorem exists_range_of_inRanges {ranges : List (Nat × Nat)} (h : inRanges n ranges = true) :
    ∃ range ∈ ranges, range.1 ≤ n ∧ n ≤ range.2 := by
  induction ranges with
  | nil => cases h
  | cons range rest ih =>
    simp only [inRanges, Bool.and_eq_true, Bool.or_eq_true, Bool.not_eq_true', decide_eq_true_eq,
      decide_eq_false_iff_not, Nat.not_lt] at h
    obtain ⟨hfirst, hlast | hrest⟩ := h
    · exact ⟨range, List.mem_cons_self, hfirst, hlast⟩
    · obtain ⟨found, hfound, hbounds⟩ := ih hrest
      exact ⟨found, List.mem_cons_of_mem _ hfound, hbounds⟩

/-! ## Blanks -/

def CharSet.missesBlanks (set : CharSet) : Bool :=
  blanks.ranges.all fun range => set.misses range.1 range.2

theorem CharSet.isBlank_eq_false {set : CharSet} (hmisses : set.missesBlanks = true)
    (h : set.contains c = true) : isBlank c = false := by
  apply Bool.eq_false_iff.mpr
  intro hblank
  obtain ⟨range, hrange, hfirst, hlast⟩ := exists_range_of_inRanges hblank
  have hnot := contains_eq_false_of_misses (List.all_eq_true.mp hmisses range hrange) hfirst hlast
  exact absurd h (Bool.eq_false_iff.mp hnot)

/-- A blank is no word character. -/
theorem isBlank_eq_false_of_isWord (hword : isWord c = true) : isBlank c = false := by
  simp only [isWord, Bool.and_eq_true, Bool.or_eq_true] at hword
  rcases hword.1 with (((halphabetic | hmark) | hdigit) | hconnector) | hjoin
  · exact CharSet.isBlank_eq_false (by decide +kernel) halphabetic
  · exact CharSet.isBlank_eq_false (by decide +kernel) hmark
  · exact CharSet.isBlank_eq_false (by decide +kernel) hdigit
  · exact CharSet.isBlank_eq_false (by decide +kernel) hconnector
  · simp only [isJoinControl, Bool.or_eq_true, decide_eq_true_eq] at hjoin
    rcases hjoin with rfl | rfl <;> decide

/-! ## Characters of identifiers -/

/-- Whether an identifier can hold the character although it may be no word character. -/
def isUnusual (c : Char) : Bool :=
  newcomers.contains c || otherNumbers.contains c || c == '$'

theorem isWord_of_isPart (hpart : Identifier.isPart c = true) (husual : isUnusual c = false) :
    isWord c = true := by
  simp only [isUnusual, Bool.or_eq_false_iff] at husual
  obtain ⟨⟨hnewcomer, hnumber⟩, hdollar⟩ := husual
  simp only [Identifier.isPart, isNumeric, hnumber, hdollar, Bool.or_false, Bool.or_eq_true,
    beq_iff_eq] at hpart
  simp only [isWord, isDecimalDigit, hnewcomer, Bool.not_false, Bool.and_true, Bool.or_eq_true]
  rcases hpart with ((halphabetic | hdigit) | rfl) | hjoin
  · exact .inl (.inl (.inl (.inl halphabetic)))
  · exact .inl (.inl (.inr hdigit))
  · exact .inl (.inr (by decide))
  · exact .inr hjoin

/-! ## Upper-case forms -/

/-- Whether the counterparts on a run are word characters where an identifier can hold them, leaving
out those of newcomers and of two letters. Few runs meet an unusual range and are followed letter by
letter. -/
def CaseRun.keepsWords (run : CaseRun) : Bool :=
  let last := run.target + (run.last - run.first)
  newcomers.misses run.target last && otherNumbers.misses run.target last &&
    (0x24).blt run.target ||
    (List.range' run.first (run.last - run.first + 1)).all fun n =>
      (run.counterpart? n).all fun m =>
      newcomers.contains (Char.ofNat n) || n == 0xa7d3 || n == 0xa7d5 || isWord (Char.ofNat m)

theorem keepsWords_caseRuns : caseRuns.all CaseRun.keepsWords = true := by
  decide +kernel

theorem isUnusual_caseExpansions :
    (caseExpansions.all fun entry => entry.2.all fun n => !isUnusual (Char.ofNat n)) = true := by
  decide +kernel

theorem CaseRun.mem_points_of_counterpart? {run : CaseRun} {m : Nat}
    (h : run.counterpart? n = some m) :
    n ∈ List.range' run.first (run.last - run.first + 1) ∧
      run.target ≤ m ∧ m ≤ run.target + (run.last - run.first) := by
  unfold counterpart? at h
  split at h
  case isTrue hrun =>
    obtain rfl := Option.some.inj h
    rw [List.mem_range'_1]
    omega
  case isFalse => cases h

/-- A code point that is none stands for the null character, which no identifier holds. -/
theorem toNat_ofNat_of_isPart (hpart : Identifier.isPart (Char.ofNat n) = true) :
    (Char.ofNat n).toNat = n := by
  by_cases hvalid : n.isValidChar
  · rw [Char.ofNat, dif_pos hvalid]
    rfl
  · rw [Char.ofNat, dif_neg hvalid] at hpart
    exact absurd hpart (by decide)

theorem CaseRun.isWord_counterpart {run : CaseRun} (hrun : run ∈ caseRuns)
    (hcounterpart : run.counterpart? c.toNat = some n) (hword : isWord c = true)
    (hletters : c ≠ '\ua7d3' ∧ c ≠ '\ua7d5') (hpart : Identifier.isPart (Char.ofNat n) = true) :
    isWord (Char.ofNat n) = true := by
  have hkeeps := List.all_eq_true.mp keepsWords_caseRuns run hrun
  obtain ⟨hpoint, hlower, hupper⟩ := mem_points_of_counterpart? hcounterpart
  simp only [keepsWords, Bool.or_eq_true, Bool.and_eq_true, Nat.blt_eq] at hkeeps
  rcases hkeeps with ⟨⟨hnewcomers, hnumbers⟩, hdollar⟩ | hpoints
  · have hcode := toNat_ofNat_of_isPart hpart
    refine isWord_of_isPart hpart ?_
    rw [isUnusual, CharSet.contains_eq_false_of_misses hnewcomers (by omega) (by omega),
      CharSet.contains_eq_false_of_misses hnumbers (by omega) (by omega)]
    refine beq_eq_false_iff_ne.mpr fun heq => ?_
    rw [heq] at hcode
    exact absurd hcode (Nat.ne_of_lt (Nat.lt_of_lt_of_le hdollar hlower))
  · have hcase := List.all_eq_true.mp hpoints c.toNat hpoint
    simp only [hcounterpart, Option.all_some, Char.ofNat_toNat, Bool.or_eq_true,
      beq_iff_eq] at hcase
    rcases hcase with ((hnewcomer | heq) | heq) | hcase
    · simp only [isWord, hnewcomer, Bool.not_true, Bool.and_false] at hword
      cases hword
    · exact absurd (Char.toNat_inj.mp heq) hletters.1
    · exact absurd (Char.toNat_inj.mp heq) hletters.2
    · exact hcase

/-- What an identifier can hold of the upper-case form of a word character is a word character,
except for two letters. -/
theorem isWord_of_mem_upper {u : Char} (hword : isWord c = true)
    (hletters : c ≠ '\ua7d3' ∧ c ≠ '\ua7d5') (hu : u ∈ upper c)
    (hpart : Identifier.isPart u = true) : isWord u = true := by
  unfold upper at hu
  split at hu
  case h_1 form hform =>
    obtain ⟨n, hn, rfl⟩ := List.mem_map.mp hu
    obtain ⟨before, after, hentry, -⟩ := List.lookup_eq_some_iff.mp hform
    have hall := List.all_eq_true.mp isUnusual_caseExpansions (c.toNat, form) (by simp [hentry])
    exact isWord_of_isPart hpart (by simpa using List.all_eq_true.mp hall n hn)
  case h_2 =>
    split at hu
    case h_1 n hn =>
      obtain rfl := List.mem_singleton.mp hu
      obtain ⟨run, hrun, hcounterpart⟩ := List.exists_of_findSome?_eq_some hn
      exact run.isWord_counterpart hrun hcounterpart hword hletters hpart
    case h_2 =>
      obtain rfl := List.mem_singleton.mp hu
      exact hword

end Typings.Text
