import Typings.Emission.CodeText
import Typings.Model.Basic
import Typings.Text.Lines

/-!
# Declarations as text

## Main definitions

* `Printer.comments`: a block comment.
* `Printer.data`, `Printer.typeAlias`, `Printer.enumeration`: the lines of a declaration.
* `Declaration.symbols`: the symbols whose names are written in a declaration.
-/

namespace Typings

open Emission

/-- The keyword in front of a declaration that is visible outside. -/
def exportText (exported : Bool) : String :=
  if exported then "export " else ""

/-- The modifiers of a member. -/
def Modifiers.text (m : Modifiers) : String :=
  (if m.static then "static " else "") ++ (if m.readonly then "readonly " else "")

/-- The accessibility of a constructor parameter. -/
def accessibilityText : Option Accessibility → String
  | some .publicMember => "public "
  | some .protectedMember => "protected "
  | some .privateMember => "private "
  | none => ""

namespace Printer

variable (printer : Printer)

def commentLine (level : Nat) (text : String) : String :=
  printer.line level (if text.isEmpty then " *" else " * " ++ text)

/-- A block comment; none if there is nothing to say. -/
def comments (level : Nat) (texts : List String) : List String :=
  if texts.isEmpty then []
  else
    printer.line level "/**" ::
      (texts.flatMap Text.lines).map (fun text => printer.commentLine level (commentText text)) ++
      [printer.line level " */"]

def property (level : Nat) (p : Property) : List String :=
  printer.comments level p.comments ++
    [printer.line level
      (p.modifiers.text ++ p.type.labelled printer.name (propertyName p.name) ++ ";")]

def constructor (level : Nat) (c : Constructor) : List String :=
  let parameters := c.parameters.map fun p =>
    accessibilityText p.accessibility ++ p.type.labelled printer.name p.name
  printer.line level ("constructor(" ++ String.intercalate ", " parameters ++ ") \x7b") ::
    printer.statements (level + 1) c.body ++ [printer.line level "\x7d"]

def signature (m : Method) : String :=
  m.modifiers.text ++ propertyName m.name ++ typeParameterList m.typeParameters ++ "(" ++
    String.intercalate ", " (m.parameters.map fun p => p.type.labelled printer.name p.name) ++
    "): " ++ m.result.text printer.name

/-- A method; its code is written in a class only. -/
def method (level : Nat) (inClass : Bool) (m : Method) : List String :=
  printer.comments level m.comments ++
    match m.body, inClass with
    | some body, true =>
      printer.line level (printer.signature m ++ " \x7b") ::
        printer.statements (level + 1) body ++ [printer.line level "\x7d"]
    | _, _ => [printer.line level (printer.signature m ++ ";")]

/-- What follows a keyword, unless there is nothing. -/
def clause (keyword : String) (types : List TypeExpr) : String :=
  if types.isEmpty then "" else " " ++ keyword ++ " " ++ TypeExpr.listText printer.name types

/-- The first line of an interface or class. -/
def header (exported : Bool) (d : DataDeclaration) : String :=
  exportText exported ++ (if d.isClass then "class " else "interface ") ++
    printer.simpleName d.symbol ++ typeParameterList d.typeParameters ++
    (if d.isClass then
      printer.clause "extends" d.parent.toList ++ printer.clause "implements" d.interfaces
    else printer.clause "extends" d.supertypes) ++ " \x7b"

/-- The constructor and the methods, each a block of lines. -/
def members (level : Nat) (d : DataDeclaration) : List (List String) :=
  (if d.isClass then d.ctor.toList.map (printer.constructor level) else []) ++
    d.methods.map (printer.method level d.isClass)

/-- The blocks of a class, with an empty line before each; the first has none if nothing precedes
it. -/
def separated (afterOthers : Bool) : List (List String) → List String
  | [] => []
  | block :: rest => (if afterOthers then "" :: block else block) ++ separated true rest

/-- An interface or a class. -/
def data (level : Nat) (exported : Bool) (d : DataDeclaration) : List String :=
  let members := printer.members (level + 1) d
  printer.comments level d.comments ++
    printer.line level (printer.header exported d) ::
    d.properties.flatMap (printer.property (level + 1)) ++
    (if d.isClass then separated (!d.properties.isEmpty) members else members.flatten) ++
    [printer.line level "\x7d"]

def typeAlias (level : Nat) (exported : Bool) (a : AliasDeclaration) : List String :=
  printer.comments level a.comments ++
    [printer.line level
      (exportText exported ++ "type " ++ printer.simpleName a.symbol ++
        typeParameterList a.typeParameters ++ " = " ++ a.definition.text printer.name ++ ";")]

def enumMember (level : Nat) (representation : EnumRepresentation) (m : EnumMember) : List String :=
  printer.comments level m.comments ++
    [printer.line level
      (match m.value, representation with
        | some value, .pending | some value, .valued =>
          propertyName m.name ++ " = " ++ literalText value ++ ","
        | _, _ => propertyName m.name ++ ",")]

def enumeration (level : Nat) (exported : Bool) (e : EnumDeclaration) : List String :=
  printer.comments level e.comments ++
    printer.line level
      (exportText exported ++ "const enum " ++ printer.simpleName e.symbol ++ " \x7b") ::
    e.members.flatMap (printer.enumMember (level + 1) e.representation) ++
    [printer.line level "\x7d"]

/-- A declaration and the empty line after it. -/
def declaration (level : Nat) (exported : Bool) (d : Declaration) : List String :=
  (match d with
    | .ofData d => printer.data level exported d
    | .ofAlias a => printer.typeAlias level exported a
    | .ofEnum e => printer.enumeration level exported e) ++ [""]

end Printer

/-! ## Symbols -/

/-- The symbols whose names are written in a method; its code is written in a class only. -/
def Method.symbols (inClass : Bool) (m : Method) : List Symbol :=
  m.parameters.flatMap (·.type.symbols) ++ m.result.symbols ++
    (if inClass then m.body.toList.flatMap Statement.symbolsAll else [])

/-- The symbols whose names are written in a constructor. -/
def Constructor.symbols (c : Constructor) : List Symbol :=
  c.parameters.flatMap (·.type.symbols) ++ Statement.symbolsAll c.body

/-- The symbols whose names are written in an interface or class. -/
def DataDeclaration.symbols (d : DataDeclaration) : List Symbol :=
  d.supertypes.flatMap (·.symbols) ++ d.properties.flatMap (·.type.symbols) ++
    (if d.isClass then d.ctor.toList.flatMap (·.symbols) else []) ++
    d.methods.flatMap (·.symbols d.isClass)

/-- The symbols whose names are written in a declaration, its own apart. -/
def Declaration.symbols : Declaration → List Symbol
  | ofData d => d.symbols
  | ofAlias a => a.definition.symbols
  | ofEnum _ => []

end Typings
