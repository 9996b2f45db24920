/-!
# Sets of characters

A character class is a table of inclusive ranges of code points, in increasing order.

## Main definitions

* `CharSet`: such a table.
* `CharSet.ofRuns`: the table with gaps and ranges of the given lengths.
* `CharSet.contains`: the membership test, which stops at the first range above the character.
-/

namespace Typings.Text

/-- A set of characters: inclusive ranges of code points in increasing order. -/
structure CharSet where
  /-- The first and the last code point of each range. -/
  ranges : List (Nat × Nat)

/-- The ranges from a code point on, given by the lengths of the gaps and the ranges in turn. -/
def rangesFrom (start : Nat) : List Nat → List (Nat × Nat)
  | gap :: size :: rest =>
    (start + gap, start + gap + size - 1) :: rangesFrom (start + gap + size) rest
  | _ => []

/-- The set whose gaps and ranges have the given lengths in turn. -/
def CharSet.ofRuns (runs : List Nat) : CharSet where
  ranges := rangesFrom 0 runs

/-- Whether `n` lies in one of the increasing `ranges`. -/
def inRanges (n : Nat) : List (Nat × Nat) → Bool
  | [] => false
  | (first, last) :: rest => !(n < first) && (n ≤ last || inRanges n rest)

/-- Whether the character belongs to the set. -/
def CharSet.contains (set : CharSet) (c : Char) : Bool :=
  inRanges c.toNat set.ranges

end Typings.Text
