/-!
# Text for terminals

Text that is written for a terminal holds escape sequences, which set styles and the like. Where it
does not go to a terminal, the sequences are taken out, and with them every control character that
is not white space.

A sequence starts with the escape character and ends as its kind says. A white-space control inside
a sequence is kept and pauses it: what follows is text up to the next control character, after which
the sequence goes on.

## Main definitions

* `Sequence`: the part of a sequence that is being read.
* `Sequence.next`: the part after one more character.
* `unstyled`: a text without its sequences.
-/

namespace Typings.Text

/-- The part of an escape sequence that is being read. -/
inductive Sequence where
  /-- No sequence, only text. -/
  | plain
  /-- After the escape character. -/
  | escape
  /-- After marks that announce one more character. -/
  | announced
  /-- A control sequence; a letter ends it. -/
  | control
  /-- A command to the system around the terminal; a bell ends it. -/
  | command
  /-- The start of a string for a device. -/
  | device
  /-- The numbers before a string for a device. -/
  | deviceNumbers
  /-- The marks before a string for a device. -/
  | deviceMarks
  /-- A string; its terminator ends it. -/
  | string
  deriving Repr, DecidableEq, Inhabited

/-- Whether the code of the character lies between the bounds. -/
def isBetween (low high : Nat) (c : Char) : Bool :=
  low ≤ c.toNat && c.toNat ≤ high

/-- Whether the character ends a string: one of its bytes is the string terminator. -/
def endsString (c : Char) : Bool :=
  (String.utf8EncodeChar c).contains 0x9c

namespace Sequence

/-- The part of the sequence after one more character. -/
def next : Sequence → Char → Sequence
  | plain, _ => plain
  | escape, c =>
    if isBetween 0x20 0x2f c then announced
    else if c = '[' then control
    else if c = ']' then command
    else if c = 'P' then device
    else if c = 'X' || c = '^' || c = '_' then string
    else if isBetween 0x30 0x7e c then plain
    else escape
  | announced, c => if isBetween 0x30 0x7e c then plain else announced
  | control, c => if isBetween 0x40 0x7e c then plain else control
  | command, c => if c = '\x07' then plain else command
  | device, c =>
    if isBetween 0x20 0x2f c then deviceMarks
    else if isBetween 0x30 0x3f c then deviceNumbers
    else if isBetween 0x40 0x7e c then string
    else device
  | deviceNumbers, c =>
    if isBetween 0x20 0x2f c then deviceMarks
    else if isBetween 0x3c 0x7e c then string
    else deviceNumbers
  | deviceMarks, c => if isBetween 0x30 0x7e c then string else deviceMarks
  | string, c => if endsString c then plain else string

/-- Whether white-space controls inside the sequence are kept. -/
def keepsSpace : Sequence → Bool
  | plain | escape | announced | control => true
  | _ => false

end Sequence

/-- Whether the character is a control character that counts as white space. -/
def isSpaceControl (c : Char) : Bool :=
  c = '\t' || c = '\n' || c = '\x0c' || c = '\r'

/-- How far a text has been read. -/
structure Reading where
  sequence : Sequence := .plain
  /-- Whether white space inside the sequence has paused it. -/
  paused : Bool := false
  deriving Repr, DecidableEq, Inhabited

/-- Reads one more character; the flag tells whether it is kept. -/
def Reading.step (reading : Reading) (c : Char) : Reading × Bool :=
  if c = '\x1b' then ({ sequence := .escape }, false)
  -- two of the controls cancel any sequence
  else if c = '\x18' || c = '\x1a' then ({}, false)
  else if reading.sequence = .plain || reading.paused then
    if 0x80 ≤ c.toNat then ({}, true)
    else if isSpaceControl c || isBetween 0x20 0x7e c then (reading, true)
    else ({ reading with paused := false }, false)
  else if isSpaceControl c && reading.sequence.keepsSpace then
    ({ reading with paused := true }, true)
  else ({ sequence := reading.sequence.next c }, false)

/-- The characters of a text that are kept. -/
def unstyledFrom (reading : Reading) : List Char → List Char
  | [] => []
  | c :: rest =>
    let (reading, kept) := reading.step c
    if kept then c :: unstyledFrom reading rest else unstyledFrom reading rest

/-- The text without escape sequences and control characters other than white space. -/
def unstyled (text : String) : String :=
  String.ofList (unstyledFrom {} text.toList)

end Typings.Text
