import Typings.Text.Alphabetic
import Typings.Text.Numeric
import Typings.Text.Uppercase
import Typings.Text.Word

/-!
# Identifiers of the target language

## Main definitions

* `Identifier.isValid`: whether a name can be used as an identifier as it stands.
* `Identifier.repair`: the identifier made of an arbitrary name.
* `reservedWords`: the words that cannot name a namespace.
-/

namespace Typings

/-- The words of the target language that cannot name a namespace. -/
def reservedWords : List String :=
  ["break", "case", "catch", "class", "const", "continue", "debugger", "default", "delete",
   "do", "else", "enum", "export", "extends", "false", "finally", "for", "function", "if",
   "import", "in", "instanceof", "new", "null", "return", "super", "switch", "this", "throw",
   "true", "try", "typeof", "var", "void", "while", "with", "implements", "interface", "let",
   "package", "private", "protected", "public", "static", "yield"]

def isReservedWord (word : String) : Bool :=
  reservedWords.contains word

namespace Identifier

/-- Whether the character can start an identifier. -/
def isStart (c : Char) : Bool :=
  Text.isAlphabetic c || c == '$' || c == '_'

/-- Whether the character can stand inside an identifier. -/
def isPart (c : Char) : Bool :=
  Text.isAlphabetic c || Text.isNumeric c || c == '$' || c == '_' || Text.isJoinControl c

theorem isPart_of_isStart {c : Char} (h : isStart c = true) : isPart c = true := by
  simp only [isStart, Bool.or_eq_true] at h
  simp only [isPart, Bool.or_eq_true]
  rcases h with (h | h) | h <;> simp [h]

/-- Whether the characters form an identifier. -/
def isValidChars : List Char → Bool
  | [] => false
  | c :: rest => isStart c && rest.all isPart

/-- Whether the name is an identifier. -/
def isValid (name : String) : Bool :=
  isValidChars name.toList

/-- Joins the words of a dashed name: a dash before another character is dropped and that character
written in upper case. -/
def joinDashed : List Char → List Char
  | [] => []
  | '-' :: next :: rest =>
    if next = '-' then '-' :: joinDashed (next :: rest) else Text.upper next ++ joinDashed rest
  | c :: rest => c :: joinDashed rest

/-- Appends a character, if it can stand there in an identifier. -/
def pushValid (kept : List Char) (c : Char) : List Char :=
  if (if kept.isEmpty then isStart c else isPart c) then kept ++ [c] else kept

/-- Drops the characters that cannot stand where they are in an identifier. -/
def keepValid (cs : List Char) : List Char :=
  cs.foldl pushValid []

/-- The identifier made of a name: dashed words are joined, then the characters that an identifier
cannot hold are dropped. It is empty if nothing remains. -/
def repair (name : String) : String :=
  String.ofList (keepValid (joinDashed name.toList))

end Identifier

end Typings
