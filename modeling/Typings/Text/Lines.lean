import Typings.Text.Blank

/-!
# Lines, blanks and pieces of a text

## Main definitions

* `lines`: the lines of a text; a line feed ends a line and takes one carriage return with it.
* `trimEnd`, `isBlankText`: white space at the end of a text, and texts of white space only.
* `pieces`: the parts of a text between separators.
-/

namespace Typings.Text

/-- Drops one carriage return at the end of a line. -/
def dropReturn (line : List Char) : List Char :=
  match line.getLast? with
  | some '\r' => line.dropLast
  | _ => line

/-- The lines of a text read so far up to `line`, which is in reverse. A text that ends with a line
feed has no further, empty line. -/
def linesFrom (line : List Char) : List Char → List (List Char)
  | [] => if line.isEmpty then [] else [line.reverse]
  | c :: rest =>
    if c = '\n' then dropReturn line.reverse :: linesFrom [] rest else linesFrom (c :: line) rest

def lines (text : String) : List String :=
  (linesFrom [] text.toList).map String.ofList

/-- The text without the white space at its end. -/
def trimEnd (text : String) : String :=
  String.ofList (text.toList.reverse.dropWhile isBlank).reverse

/-- Whether the text is empty or holds white space only. -/
def isBlankText (text : String) : Bool :=
  text.toList.all isBlank

/-- The parts of a text between the separators; there is always at least one part. -/
def pieces (isSeparator : Char → Bool) : List Char → List (List Char)
  | [] => [[]]
  | c :: rest =>
    if isSeparator c then [] :: pieces isSeparator rest
    else
      match pieces isSeparator rest with
      | [] => [[c]]
      | part :: parts => (c :: part) :: parts

@[simp]
theorem pieces_nil (isSeparator : Char → Bool) : pieces isSeparator [] = [[]] := rfl

theorem pieces_ne_nil (isSeparator : Char → Bool) (text : List Char) :
    pieces isSeparator text ≠ [] := by
  cases text with
  | nil => simp
  | cons c rest =>
    unfold pieces
    split
    · simp
    · split <;> simp

end Typings.Text
