import Typings.Code
import Typings.Emission.TypeText

/-!
# Code as text

## Main definitions

* `Expression.code`: an expression as it is written.
* `Printer`: what declarations are written with.
* `Printer.statements`: the lines of statements.
* `Expression.symbols`, `Statement.symbols`: the symbols whose names are written.
-/

namespace Typings

open Emission

namespace Expression

/-- Whether an expression is written in parentheses where an operand stands. -/
def isCompound : Expression → Bool
  | or .. | assign .. | arrow .. | not _ => true
  | _ => false

/-- Whether an expression is written in parentheses beside an operator of two operands. -/
def isLooserThanOr : Expression → Bool
  | assign .. | arrow .. => true
  | _ => false

def isObject : Expression → Bool
  | object _ => true
  | _ => false

variable (name : Symbol → String)

/-- A declaration used as a value: type arguments are not written. -/
def typeNameText : TypeExpr → String
  | .reference symbol _ => name symbol
  | t => t.text name

/-- Type arguments in angle brackets. -/
def typeArguments (types : List TypeExpr) : String :=
  if types.isEmpty then "" else "<" ++ TypeExpr.listText name types ++ ">"

/-- A parameter of a function expression. -/
def arrowParameter : String × Option TypeExpr → String
  | (parameter, some type) => parameter ++ ": " ++ type.text name
  | (parameter, none) => parameter

/-- The access to a member of an object. -/
def memberText (receiver property : String) : String :=
  if Identifier.isValid property then receiver ++ "." ++ property
  else receiver ++ "[" ++ quote property ++ "]"

mutual

/-- An expression as it is written. -/
def code : Expression → String
  | identifier x => x
  | typeName type => typeNameText name type
  | self => "this"
  | super => "super"
  | undefined => "undefined"
  | text value => quote value
  | member receiver property =>
    memberText (parenthesizeIf receiver.isCompound receiver.code) property
  | call callee types args =>
    parenthesizeIf callee.isCompound callee.code ++ typeArguments name types ++ "(" ++
      String.intercalate ", " (codes args) ++ ")"
  | create type args =>
    "new " ++ type.text name ++ "(" ++ String.intercalate ", " (codes args) ++ ")"
  | or left right =>
    parenthesizeIf left.isLooserThanOr left.code ++ " || " ++
      parenthesizeIf right.isLooserThanOr right.code
  | not inner => "!" ++ parenthesizeIf inner.isCompound inner.code
  | assign target value => target.code ++ " = " ++ value.code
  | arrow params body =>
    "(" ++ String.intercalate ", " (params.map (arrowParameter name)) ++ ") => " ++
      -- a brace after an arrow would open a block
      parenthesizeIf body.isObject body.code
  | object [] => "\x7b\x7d"
  | object (entry :: entries) =>
    "\x7b " ++ String.intercalate ", " (entryTexts (entry :: entries)) ++ " \x7d"
  | template tag parts =>
    parenthesizeIf tag.isCompound tag.code ++ "`" ++ partsText parts ++ "`"
termination_by structural e => e

/-- Expressions as they are written. -/
def codes : List Expression → List String
  | [] => []
  | e :: rest => e.code :: codes rest

/-- The entries of an object. -/
def entryTexts : List (String × Option Expression) → List String
  | [] => []
  | (key, some value) :: rest => (propertyName key ++ ": " ++ value.code) :: entryTexts rest
  | (key, none) :: rest => key :: entryTexts rest

def partsText : List TemplatePart → String
  | [] => ""
  | .literal literal :: rest => templateText literal ++ partsText rest
  | .substitution value :: rest => "$\x7b" ++ value.code ++ "\x7d" ++ partsText rest

end

/-! ## Symbols -/

/-- The symbols of a declaration used as a value. -/
def typeNameSymbols : TypeExpr → List Symbol
  | .reference symbol _ => [symbol]
  | t => t.symbols

/-- The symbols of the parameters of a function expression. -/
def arrowSymbols (params : List (String × Option TypeExpr)) : List Symbol :=
  params.flatMap fun param => param.2.toList.flatMap (·.symbols)

mutual

/-- The symbols whose names are written in an expression. The type arguments of a call come first,
the parameters of a function expression last. -/
def symbols : Expression → List Symbol
  | identifier _ | self | super | undefined | text _ => []
  | typeName type => typeNameSymbols type
  | member receiver _ => receiver.symbols
  | call callee types args => types.flatMap (·.symbols) ++ callee.symbols ++ symbolsAll args
  | create type args => type.symbols ++ symbolsAll args
  | or left right => left.symbols ++ right.symbols
  | not inner => inner.symbols
  | assign target value => target.symbols ++ value.symbols
  | arrow params body => body.symbols ++ arrowSymbols params
  | object entries => symbolsEntries entries
  | template tag parts => tag.symbols ++ symbolsParts parts
termination_by structural e => e

def symbolsAll : List Expression → List Symbol
  | [] => []
  | e :: rest => e.symbols ++ symbolsAll rest

def symbolsEntries : List (String × Option Expression) → List Symbol
  | [] => []
  | (_, some value) :: rest => value.symbols ++ symbolsEntries rest
  | (_, none) :: rest => symbolsEntries rest

def symbolsParts : List TemplatePart → List Symbol
  | [] => []
  | .literal _ :: rest => symbolsParts rest
  | .substitution value :: rest => value.symbols ++ symbolsParts rest

end

end Expression

/-- What declarations are written with. -/
structure Printer where
  /-- One level of indentation. -/
  indent : String
  /-- The name of a symbol where it is referred to. -/
  name : Symbol → String
  /-- The name of a symbol where it is declared. -/
  simpleName : Symbol → String

namespace Printer

variable (printer : Printer)

def line (level : Nat) (text : String) : String :=
  String.join (List.replicate level printer.indent) ++ text

/-- An expression as it is written. -/
def expression (e : Expression) : String :=
  e.code printer.name

mutual

/-- The lines of a statement. -/
def statement (level : Nat) : Statement → List String
  | .returns none => [printer.line level "return;"]
  | .returns (some value) => [printer.line level ("return " ++ printer.expression value ++ ";")]
  | .when condition body =>
    printer.line level ("if (" ++ printer.expression condition ++ ") \x7b") ::
      statements (level + 1) body ++ [printer.line level "\x7d"]
  | .constant x value =>
    [printer.line level ("const " ++ x ++ " = " ++ printer.expression value ++ ";")]
  | .perform value => [printer.line level (printer.expression value ++ ";")]
  | .switch discriminant cases =>
    printer.line level ("switch (" ++ printer.expression discriminant ++ ") \x7b") ::
      switchCases level cases ++ [printer.line level "\x7d"]
termination_by structural s => s

/-- The lines of statements. -/
def statements (level : Nat) : List Statement → List String
  | [] => []
  | s :: rest => statement level s ++ statements level rest

def switchCases (level : Nat) : List (Expression × List Statement) → List String
  | [] => []
  | (test, body) :: rest =>
    printer.line (level + 1) ("case " ++ printer.expression test ++ ":") ::
      statements (level + 2) body ++ switchCases level rest

end

end Printer

namespace Statement

mutual

/-- The symbols whose names are written in a statement. -/
def symbols : Statement → List Symbol
  | returns none => []
  | returns (some value) => value.symbols
  | when condition body => condition.symbols ++ symbolsAll body
  | constant _ value => value.symbols
  | perform value => value.symbols
  | switch discriminant cases => discriminant.symbols ++ symbolsCases cases
termination_by structural s => s

def symbolsAll : List Statement → List Symbol
  | [] => []
  | s :: rest => s.symbols ++ symbolsAll rest

def symbolsCases : List (Expression × List Statement) → List Symbol
  | [] => []
  | (test, body) :: rest => test.symbols ++ symbolsAll body ++ symbolsCases rest

end

end Statement

end Typings
