import Typings.Identifier
import Typings.Literal

/-!
# Quoting in generated code

## Main definitions

* `quote`: a text as a string literal.
* `propertyName`: a name of a member, quoted where it has to be.
* `literalText`: a literal value.
* `templateText`: a text inside a template literal.
* `commentText`: a text inside a block comment.
-/

namespace Typings.Emission

/-- A character of a string literal. -/
def quoteChar (c : Char) : List Char :=
  if c = '"' then ['\\', '"']
  else if c = '\\' then ['\\', '\\']
  else if c = '\n' then ['\\', 'n']
  else if c = '\r' then ['\\', 'r']
  else if c = '\t' then ['\\', 't']
  else [c]

def quote (text : String) : String :=
  String.ofList ('"' :: text.toList.flatMap quoteChar ++ ['"'])

/-- The name of a member; one that is no identifier is quoted. -/
def propertyName (name : String) : String :=
  if Identifier.isValid name then name else quote name

/-- A literal value. -/
def literalText : Literal → String
  | .text s => quote s
  | .number x => x.text
  | .boolean true => "true"
  | .boolean false => "false"

/-- Escapes every occurrence of a character. -/
def escapeChar (mark : Char) (cs : List Char) : List Char :=
  cs.flatMap fun c => if c = mark then ['\\', c] else [c]

/-- Escapes what would start a substitution. -/
def escapeSubstitutions : List Char → List Char
  | [] => []
  | '$' :: '\x7b' :: rest => '\\' :: '$' :: '\x7b' :: escapeSubstitutions rest
  | c :: rest => c :: escapeSubstitutions rest

/-- Escapes what would end a template literal or start a substitution in it. -/
def escapeTemplate (cs : List Char) : List Char :=
  escapeSubstitutions (escapeChar '\x60' (escapeChar '\\' cs))

/-- A text inside a template literal. -/
def templateText (text : String) : String :=
  String.ofList (escapeTemplate text.toList)

/-- Parts every end of a block comment. -/
def escapeComment : List Char → List Char
  | [] => []
  | '*' :: '/' :: rest => '*' :: '\\' :: '/' :: escapeComment rest
  | c :: rest => c :: escapeComment rest

/-- A text inside a block comment. -/
def commentText (text : String) : String :=
  String.ofList (escapeComment text.toList)

end Typings.Emission
