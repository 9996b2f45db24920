import Typings.Text.Alphabetic
import Typings.Text.Numeric

/-!
# Word characters

A word is made of alphabetic characters, combining marks, decimal digits, connector punctuation and
the two join controls. Words follow Unicode 16: the characters that Unicode 17 adds do not count,
although an identifier takes them.
-/

namespace Typings.Text

/-- The ranges of the combining marks that are not alphabetic themselves. -/
def combiningMarks : CharSet := .ofRuns
  [768, 69, 1, 29, 288, 7, 263, 31, 168, 1, 134, 2, 9, 3, 83, 11, 160, 9, 9, 1, 26, 2, 19, 1, 43, 3,
   60, 8, 42, 10, 12, 2, 8, 6, 76, 1, 16, 1, 3, 4, 103, 1, 16, 1, 48, 1, 61, 1, 16, 1, 110, 1, 16,
   1, 47, 3, 60, 1, 16, 1, 7, 1, 119, 1, 110, 1, 16, 1, 110, 1, 16, 1, 109, 2, 16, 1, 124, 1, 124,
   6, 1, 1, 107, 1, 13, 5, 1, 1, 73, 2, 27, 1, 1, 1, 1, 1, 4, 2, 68, 1, 1, 2, 62, 1, 112, 1, 1, 2,
   802, 3, 948, 2, 30, 1, 127, 2, 19, 11, 9, 1, 45, 3, 1, 1, 297, 3, 292, 1, 20, 8, 2, 1, 48, 15, 2,
   11, 3, 15, 2, 12, 72, 1, 15, 1, 38, 9, 54, 2, 58, 1, 11, 2, 67, 1, 152, 3, 1, 21, 4, 1, 6, 1, 2,
   3, 198, 19, 34, 11, 720, 33, 3070, 3, 141, 1, 682, 6, 105, 2, 30164, 4, 9, 2, 114, 2, 276, 1, 37,
   1, 151, 1, 27, 18, 57, 3, 37, 1, 95, 1, 12, 1, 254, 1, 1, 1, 52, 1, 245, 2, 21010, 16, 16, 16,
   973, 1, 226, 1, 1879, 3, 4, 1, 165, 2, 643, 4, 399, 3, 70, 11, 49, 4, 192, 1, 41, 1, 14, 1, 57,
   2, 120, 2, 62, 1, 76, 1, 8, 4, 104, 2, 178, 2, 80, 2, 16, 1, 24, 7, 3, 5, 89, 3, 1, 1, 14, 2, 95,
   1, 3, 1, 23, 1, 99, 2, 251, 2, 126, 1, 118, 2, 115, 1, 269, 2, 258, 2, 4, 1, 156, 1, 82, 2, 18,
   1, 80, 2, 421, 1, 258, 1, 1, 2, 81, 1, 425, 2, 23, 1, 5349, 1, 6, 15, 11481, 1, 2496, 5, 59, 7,
   1197, 1, 19640, 1, 4706, 46, 2, 23, 542, 5, 3, 6, 8, 8, 2, 7, 30, 4, 148, 3, 1979, 55, 4, 50, 8,
   1, 14, 1, 22, 5, 1, 15, 1664, 7, 375, 1, 61, 4, 508, 4, 254, 2, 736, 7, 109, 3, 1, 3, 792501,
   240]

/-- The ranges of the letters, combining marks and digits that Unicode 17 adds. -/
def newcomers : CharSet := .mk
  [(0x88f, 0x88f), (0xc5c, 0xc5c), (0xcdc, 0xcdc), (0x1acf, 0x1add), (0x1ae0, 0x1aeb),
   (0xa7ce, 0xa7cf), (0xa7d2, 0xa7d2), (0xa7d4, 0xa7d4), (0xa7f1, 0xa7f1), (0x10940, 0x10959),
   (0x10ec5, 0x10ec7), (0x10efa, 0x10efb), (0x11b60, 0x11b67), (0x11db0, 0x11ddb),
   (0x11de0, 0x11de9), (0x16ea0, 0x16eb8), (0x16ebb, 0x16ed3), (0x16ff2, 0x16ff6),
   (0x187f8, 0x187ff), (0x18d09, 0x18d1e), (0x18d80, 0x18df2), (0x1e6c0, 0x1e6de),
   (0x1e6e0, 0x1e6f5), (0x1e6fe, 0x1e6ff), (0x2b73a, 0x2b73f), (0x2cea2, 0x2cead),
   (0x323b0, 0x33479)]

/-- The ranges of the general category Pc. -/
def connectors : CharSet := .mk
  [(0x5f, 0x5f), (0x203f, 0x2040), (0x2054, 0x2054), (0xfe33, 0xfe34), (0xfe4d, 0xfe4f),
   (0xff3f, 0xff3f)]

/-- Whether the character joins its neighbours without being seen. -/
def isJoinControl (c : Char) : Bool :=
  c = '\u200c' || c = '\u200d'

/-- Whether the character can stand inside a word. -/
def isWord (c : Char) : Bool :=
  (isAlphabetic c || combiningMarks.contains c || isDecimalDigit c || connectors.contains c ||
    isJoinControl c) && !newcomers.contains c

end Typings.Text
