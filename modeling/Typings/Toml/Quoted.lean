import Typings.Text.Digits

/-!
# Texts in TOML

Basic texts stand in double quotes and hold escapes, literal texts stand in single quotes. Both may
stand in three quotes and then hold line feeds, also written as a carriage return and a line feed.

## Main definitions

* `basicBody?`, `literalBody?`: texts on one line, from after the opening quote.
* `multiBasicBody?`, `multiLiteralBody?`: texts on several lines.
* `quoted?`: a text of any form.
-/

namespace Typings.Toml

/-- Whether the character is a blank within a line. -/
def isSpace (c : Char) : Bool :=
  c = ' ' || c = '\t'

/-- Whether the character may stand in some text on one line. -/
def isTextChar (c : Char) : Bool :=
  c = '\t' || (0x20 ≤ c.toNat && c.toNat ≠ 0x7f)

/-- Whether the character stands for itself in a basic text. -/
def isBasicChar (c : Char) : Bool :=
  isTextChar c && c ≠ '"' && c ≠ '\\'

/-- Whether the character may stand in a literal text. -/
def isLiteralChar (c : Char) : Bool :=
  isTextChar c && c ≠ '\''

/-- The character of a one-letter escape. -/
def escaped? (c : Char) : Option Char :=
  match c with
  | 'b' => some '\x08'
  | 't' => some '\t'
  | 'n' => some '\n'
  | 'f' => some '\x0c'
  | 'r' => some '\r'
  | '"' => some '"'
  | '\\' => some '\\'
  | _ => none

/-- The character of an escape with hexadecimal digits. -/
def hexEscaped? (digits : List Char) : Option Char :=
  (Text.hexNumber? digits).bind Text.scalar?

/-- The rest of a basic text after its opening quote; `read` holds the characters read so far, in
reverse. -/
def basicBody? (read : List Char) : List Char → Option (String × List Char)
  | [] => none
  | '"' :: rest => some (String.ofList read.reverse, rest)
  | '\\' :: 'u' :: a :: b :: c :: d :: rest =>
    match hexEscaped? [a, b, c, d] with
    | some e => basicBody? (e :: read) rest
    | none => none
  | '\\' :: 'U' :: a :: b :: c :: d :: e :: f :: g :: h :: rest =>
    match hexEscaped? [a, b, c, d, e, f, g, h] with
    | some e => basicBody? (e :: read) rest
    | none => none
  | '\\' :: c :: rest =>
    match escaped? c with
    | some e => basicBody? (e :: read) rest
    | none => none
  | c :: rest => if isBasicChar c then basicBody? (c :: read) rest else none

/-- The rest of a literal text after its opening quote. -/
def literalBody? (cs : List Char) : Option (String × List Char) :=
  match cs.dropWhile isLiteralChar with
  | '\'' :: rest => some (String.ofList (cs.takeWhile isLiteralChar), rest)
  | _ => none

/-- Whether nothing but blanks stand before the end of the line. -/
def isLineEnd (cs : List Char) : Bool :=
  match cs.dropWhile isSpace with
  | '\n' :: _ => true
  | '\r' :: '\n' :: _ => true
  | _ => false

/-- The text and what follows it, from after three closing quotes. Up to two more quotes belong to
the text. -/
def closeMulti (quote : Char) (read rest : List Char) : String × List Char :=
  let extra := (rest.take 2).takeWhile (· = quote)
  (String.ofList (read.reverse ++ extra), rest.drop extra.length)

/-- The rest of a basic text on several lines. A backslash at the end of a line hides the end of the
line and the blanks and empty lines after it; these are skipped while `skipping` holds. -/
def multiBasicBody? (skipping : Bool) (read : List Char) :
    List Char → Option (String × List Char)
  | [] => none
  | '"' :: '"' :: '"' :: rest => some (closeMulti '"' read rest)
  | '\r' :: '\n' :: rest =>
    if skipping then multiBasicBody? true read rest else multiBasicBody? false ('\n' :: read) rest
  | '\\' :: 'u' :: a :: b :: c :: d :: rest =>
    match hexEscaped? [a, b, c, d] with
    | some e => multiBasicBody? false (e :: read) rest
    | none => none
  | '\\' :: 'U' :: a :: b :: c :: d :: e :: f :: g :: h :: rest =>
    match hexEscaped? [a, b, c, d, e, f, g, h] with
    | some e => multiBasicBody? false (e :: read) rest
    | none => none
  | '\\' :: c :: rest =>
    if isLineEnd (c :: rest) then multiBasicBody? true read (c :: rest)
    else
      match escaped? c with
      | some e => multiBasicBody? false (e :: read) rest
      | none => none
  | c :: rest =>
    if skipping && (isSpace c || c = '\n') then multiBasicBody? true read rest
    else if c = '\n' || c = '"' || isBasicChar c then multiBasicBody? false (c :: read) rest
    else none

/-- The rest of a literal text on several lines. -/
def multiLiteralBody? (read : List Char) : List Char → Option (String × List Char)
  | [] => none
  | '\'' :: '\'' :: '\'' :: rest => some (closeMulti '\'' read rest)
  | '\r' :: '\n' :: rest => multiLiteralBody? ('\n' :: read) rest
  | c :: rest =>
    if c = '\n' || c = '\'' || isLiteralChar c then multiLiteralBody? (c :: read) rest else none

/-- Drops a line end that follows three opening quotes at once. -/
def dropLineEnd : List Char → List Char
  | '\n' :: rest => rest
  | '\r' :: '\n' :: rest => rest
  | cs => cs

/-- A text of any form. -/
def quoted? : List Char → Option (String × List Char)
  | '"' :: '"' :: '"' :: rest => multiBasicBody? false [] (dropLineEnd rest)
  | '"' :: rest => basicBody? [] rest
  | '\'' :: '\'' :: '\'' :: rest => multiLiteralBody? [] (dropLineEnd rest)
  | '\'' :: rest => literalBody? rest
  | _ => none

end Typings.Toml
