import Typings.Toml.Quoted
import Typings.Toml.Scalar
import Typings.Toml.Table

/-!
# Reading TOML

## Main definitions

* `Toml.path?`: a dotted key.
* `Toml.value?`: a value.
* `Toml.statements?`: the statements of a document.
* `Toml.read?`: a document as one value.
-/

namespace Typings.Toml

/-- How deep arrays and inline tables may be nested, and how many parts a dotted key may have. -/
def depthLimit : Nat := 79

/-- The text without the blanks at its start. -/
def skipSpace (cs : List Char) : List Char :=
  cs.dropWhile isSpace

/-- Skips blanks, line ends and comments; `inComment` holds within a comment. -/
def skipTrivia (inComment : Bool) : List Char → List Char
  | [] => []
  | '\n' :: rest => skipTrivia false rest
  | '\r' :: '\n' :: rest => skipTrivia false rest
  | c :: rest =>
    if inComment then
      if isTextChar c then skipTrivia true rest else c :: rest
    else if isSpace c then skipTrivia false rest
    else if c = '#' then skipTrivia true rest
    else c :: rest

/-- What follows the end of the line. A comment may stand before it. -/
def lineEnd? (cs : List Char) : Option (List Char) :=
  let cs := skipSpace cs
  let cs :=
    if cs.head? = some '#' then cs.dropWhile isTextChar else cs
  match cs with
  | [] => some []
  | '\n' :: rest => some rest
  | '\r' :: '\n' :: rest => some rest
  | _ => none

/-- Whether the character may stand in a key without quotes. -/
def isBareChar (c : Char) : Bool :=
  c.isAlphanum || c = '_' || c = '-'

/-- A part of a dotted key. -/
def simpleKey? : List Char → Option (String × List Char)
  | '"' :: rest => basicBody? [] rest
  | '\'' :: rest => literalBody? rest
  | cs =>
    let key := cs.takeWhile isBareChar
    if key.isEmpty then none else some (String.ofList key, cs.dropWhile isBareChar)

/-- A dotted key of at most the given number of parts. -/
def path? : Nat → List Char → Option (List String × List Char)
  | 0, _ => none
  | parts + 1, cs =>
    match simpleKey? (skipSpace cs) with
    | none => none
    | some (key, cs) =>
      match skipSpace cs with
      | '.' :: cs => (path? parts cs).map fun (keys, rest) => (key :: keys, rest)
      | cs => some ([key], cs)

/-- A token. A blank may part a date and a time. -/
def token (cs : List Char) : List Char × List Char :=
  let first := cs.takeWhile isTokenChar
  match cs.dropWhile isTokenChar with
  | ' ' :: rest =>
    -- the blank belongs to the token only between a date and what may be a time
    let second := rest.takeWhile isTokenChar
    if isDate first && !second.isEmpty then (first ++ 'T' :: second, rest.dropWhile isTokenChar)
    else (first, ' ' :: rest)
  | rest => (first, rest)

mutual

/-- A value; `depth` more arrays and inline tables may be opened, and the text is no longer than
`fuel`. -/
def value? (depth : Nat) : Nat → List Char → Option (Json × List Char)
  | 0, _ => none
  | fuel + 1, cs =>
    match cs with
    | '"' :: _ => (quoted? cs).map fun (s, rest) => (.text s, rest)
    | '\'' :: _ => (quoted? cs).map fun (s, rest) => (.text s, rest)
    | '[' :: cs =>
      match depth with
      | 0 => none
      | depth + 1 => (items? depth fuel cs).map fun (items, rest) => (.array items, rest)
    | '{' :: cs =>
      match depth with
      | 0 => none
      | depth + 1 =>
        match skipSpace cs with
        | '}' :: rest => some (.object [], rest)
        | cs =>
          match pairs? depth fuel cs with
          | none => none
          | some (pairs, rest) => (inlineTable? pairs).map fun json => (json, rest)
    | cs =>
      let (first, rest) := token cs
      (scalar? first).map fun json => (json, rest)

/-- The items of an array up to its closing bracket. A comma may follow the last item. -/
def items? (depth : Nat) : Nat → List Char → Option (List Json × List Char)
  | 0, _ => none
  | fuel + 1, cs =>
    match skipTrivia false cs with
    | ']' :: rest => some ([], rest)
    | cs =>
      match value? depth fuel cs with
      | none => none
      | some (item, cs) =>
        match skipTrivia false cs with
        | ',' :: cs => (items? depth fuel cs).map fun (items, rest) => (item :: items, rest)
        | ']' :: rest => some ([item], rest)
        | _ => none

/-- The pairs of an inline table up to its closing brace. -/
def pairs? (depth : Nat) : Nat → List Char → Option (List (List String × Json) × List Char)
  | 0, _ => none
  | fuel + 1, cs =>
    match path? depthLimit cs with
    | some (path, '=' :: cs) =>
      match value? depth fuel (skipSpace cs) with
      | none => none
      | some (json, cs) =>
        match skipSpace cs with
        | ',' :: cs => (pairs? depth fuel cs).map fun (pairs, rest) => ((path, json) :: pairs, rest)
        | '}' :: rest => some ([(path, json)], rest)
        | _ => none
    | _ => none

end

/-- A statement and what follows its line, where the text starts with neither a blank nor a comment
nor a line end. -/
def statement? (cs : List Char) : Option (Statement × List Char) :=
  match cs with
  | '[' :: '[' :: cs =>
    match path? depthLimit cs with
    | some (path, ']' :: ']' :: cs) => (lineEnd? cs).map fun rest => (.nextHeader path, rest)
    | _ => none
  | '[' :: cs =>
    match path? depthLimit cs with
    | some (path, ']' :: cs) => (lineEnd? cs).map fun rest => (.header path, rest)
    | _ => none
  | cs =>
    match path? depthLimit cs with
    | some (path, '=' :: cs) =>
      match value? depthLimit (cs.length + 1) (skipSpace cs) with
      | none => none
      | some (json, cs) => (lineEnd? cs).map fun rest => (.assign path json, rest)
    | _ => none

/-- The statements of a text that is no longer than `fuel`. -/
def statements? : Nat → List Char → Option (List Statement)
  | 0, _ => none
  | fuel + 1, cs =>
    match skipSpace cs with
    | [] => some []
    | cs =>
      -- lines that are empty or hold a comment only
      match lineEnd? cs with
      | some rest => statements? fuel rest
      | none =>
        match statement? cs with
        | none => none
        | some (statement, rest) => (statements? fuel rest).map (statement :: ·)

/-- The text without a byte order mark. -/
def withoutMark : List Char → List Char
  | '\ufeff' :: rest => rest
  | cs => cs

/-- A document as one value. -/
def read? (source : String) : Option Json := do
  let cs := withoutMark source.toList
  let statements ← statements? (cs.length + 1) cs
  let document ← statements.foldlM Document.add? {}
  pure document.toJson

end Typings.Toml
