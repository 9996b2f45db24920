import Typings.Type.Basic

/-!
# Code of generated methods

The statements and expressions that revive functions and clients are made of.

## Main definitions

* `Expression`, `TemplatePart`: expressions and the parts of tagged templates.
* `Statement`: statements.
-/

namespace Typings

mutual

/-- An expression. -/
inductive Expression where
  | identifier (name : String)
  /-- A declaration used as a value. -/
  | typeName (type : TypeExpr)
  /-- The object whose method runs. -/
  | self
  /-- The parent class. -/
  | super
  | undefined
  | text (value : String)
  | member (object : Expression) (property : String)
  | call (callee : Expression) (typeArgs : List TypeExpr) (args : List Expression)
  /-- A new object of a class. -/
  | create (type : TypeExpr) (args : List Expression)
  | or (left right : Expression)
  | not (inner : Expression)
  | assign (target value : Expression)
  | arrow (params : List (String × Option TypeExpr)) (body : Expression)
  /-- An object; an entry without a value is written by its key alone. -/
  | object (entries : List (String × Option Expression))
  /-- A template literal that a function is applied to. -/
  | template (tag : Expression) (parts : List TemplatePart)
  deriving Repr, Inhabited

/-- A part of a template literal. -/
inductive TemplatePart where
  | literal (text : String)
  | substitution (value : Expression)
  deriving Repr, Inhabited

end

/-- A statement. -/
inductive Statement where
  | returns (value : Option Expression)
  /-- Statements that run if a condition holds. -/
  | when (condition : Expression) (body : List Statement)
  | constant (name : String) (value : Expression)
  | perform (value : Expression)
  /-- Statements chosen by the value of an expression. -/
  | switch (discriminant : Expression) (cases : List (Expression × List Statement))
  deriving Repr, Inhabited

namespace Expression

/-- A call without type arguments. -/
def apply (callee : Expression) (args : List Expression) : Expression :=
  call callee [] args

def isCallOf (expression : Expression) (function : String) : Bool :=
  match expression with
  | call (identifier name) _ _ => name == function
  | _ => false

end Expression

/-- Returns the variable if it holds no object. -/
def Statement.returnIfAbsent (name : String) : Statement :=
  .when (.not (.identifier name)) [.returns (some (.identifier name))]

end Typings
