import Typings.Text.CharSet

/-!
# Blank characters

The Unicode property White_Space.
-/

namespace Typings.Text

/-- The ranges of the Unicode property White_Space. -/
def blanks : CharSet := .mk
  [(0x9, 0xd), (0x20, 0x20), (0x85, 0x85), (0xa0, 0xa0), (0x1680, 0x1680), (0x2000, 0x200a),
   (0x2028, 0x2029), (0x202f, 0x202f), (0x205f, 0x205f), (0x3000, 0x3000)]

/-- Whether the character is white space. -/
def isBlank (c : Char) : Bool :=
  blanks.contains c

end Typings.Text
