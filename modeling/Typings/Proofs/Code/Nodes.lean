import Mathlib.Data.List.Basic
import Typings.Model.Basic

/-!
# What generated code mentions

The subexpressions of generated code, and with them the types that it mentions and the functions
that it calls by name.

## Main definitions

* `Expression.nodes`, `Statement.expressions`: all subexpressions.
* `Expression.parts`: the expressions that an expression is directly made of.
* `Expression.ownTypes`, `Expression.calledName?`: the types and the function at a node.
* `DataDeclaration.codeTypes`, `DataDeclaration.calledNames`: the types and the functions in the
  code of a declaration.
* `Helper.functions`: the functions of a helper that generated code calls.
-/

namespace Typings

def TemplatePart.value? : TemplatePart → Option Expression
  | literal _ => none
  | substitution value => some value

namespace Expression

mutual

/-- All subexpressions, each before its parts. -/
def nodes : Expression → List Expression
  | identifier name => [identifier name]
  | typeName type => [typeName type]
  | self => [self]
  | super => [super]
  | undefined => [undefined]
  | text value => [text value]
  | member owner property => member owner property :: owner.nodes
  | call callee typeArgs args => call callee typeArgs args :: (callee.nodes ++ nodesAll args)
  | create type args => create type args :: nodesAll args
  | or left right => or left right :: (left.nodes ++ right.nodes)
  | not inner => not inner :: inner.nodes
  | assign target value => assign target value :: (target.nodes ++ value.nodes)
  | arrow params body => arrow params body :: body.nodes
  | object entries => object entries :: nodesEntries entries
  | template tag parts => template tag parts :: (tag.nodes ++ nodesParts parts)

/-- The subexpressions of every expression of a list. -/
def nodesAll : List Expression → List Expression
  | [] => []
  | e :: rest => e.nodes ++ nodesAll rest

/-- The subexpressions of the values of entries. -/
def nodesEntries : List (String × Option Expression) → List Expression
  | [] => []
  | (_, some e) :: rest => e.nodes ++ nodesEntries rest
  | (_, none) :: rest => nodesEntries rest

/-- The subexpressions of the substitutions of a template. -/
def nodesParts : List TemplatePart → List Expression
  | [] => []
  | .literal _ :: rest => nodesParts rest
  | .substitution e :: rest => e.nodes ++ nodesParts rest

end

@[simp] theorem nodesAll_eq_flatMap (es : List Expression) : nodesAll es = es.flatMap nodes := by
  induction es with
  | nil => rfl
  | cons e rest ih => simp [nodesAll, ih]

@[simp] theorem nodesEntries_eq_flatMap (entries : List (String × Option Expression)) :
    nodesEntries entries = (entries.filterMap (·.2)).flatMap nodes := by
  induction entries with
  | nil => rfl
  | cons entry rest ih =>
    obtain ⟨key, value⟩ := entry
    cases value <;> simp [nodesEntries, ih]

@[simp] theorem nodesParts_eq_flatMap (parts : List TemplatePart) :
    nodesParts parts = (parts.filterMap (·.value?)).flatMap nodes := by
  induction parts with
  | nil => rfl
  | cons part rest ih => cases part <;> simp [nodesParts, TemplatePart.value?, ih]

/-- The expressions that an expression is directly made of. -/
def parts : Expression → List Expression
  | member owner _ => [owner]
  | call callee _ args => callee :: args
  | create _ args => args
  | or left right => [left, right]
  | not inner => [inner]
  | assign target value => [target, value]
  | arrow _ body => [body]
  | object entries => entries.filterMap (·.2)
  | template tag pieces => tag :: pieces.filterMap (·.value?)
  | identifier _ | typeName _ | self | super | undefined | text _ => []

theorem nodes_eq (e : Expression) : e.nodes = e :: e.parts.flatMap nodes := by
  cases e <;> simp [nodes, parts]

/-- The types that stand at an expression itself. -/
def ownTypes : Expression → List TypeExpr
  | typeName type => [type]
  | call _ typeArgs _ => typeArgs
  | create type _ => [type]
  | arrow params _ => params.filterMap (·.2)
  | _ => []

def name? : Expression → Option String
  | identifier name => some name
  | _ => none

/-- The function that an expression calls, or applies to a template, by its name. -/
def calledName? : Expression → Option String
  | call callee _ _ => callee.name?
  | template tag _ => tag.name?
  | _ => none

end Expression

namespace Statement

mutual

def expressions : Statement → List Expression
  | returns value => value.toList
  | when condition body => condition :: expressionsAll body
  | constant _ value => [value]
  | perform value => [value]
  | switch discriminant cases => discriminant :: expressionsCases cases

def expressionsAll : List Statement → List Expression
  | [] => []
  | s :: rest => s.expressions ++ expressionsAll rest

def expressionsCases : List (Expression × List Statement) → List Expression
  | [] => []
  | (test, body) :: rest => test :: expressionsAll body ++ expressionsCases rest

end

@[simp] theorem expressionsAll_eq_flatMap (statements : List Statement) :
    expressionsAll statements = statements.flatMap expressions := by
  induction statements with
  | nil => rfl
  | cons s rest ih => simp [expressionsAll, ih]

@[simp] theorem expressionsCases_eq_flatMap (cases : List (Expression × List Statement)) :
    expressionsCases cases = cases.flatMap fun c => c.1 :: c.2.flatMap expressions := by
  induction cases with
  | nil => rfl
  | cons c rest ih => simp [expressionsCases, ih]

end Statement

/-- All subexpressions of some code. -/
def codeNodes (body : List Statement) : List Expression :=
  body.flatMap fun s => s.expressions.flatMap (·.nodes)

def Method.codeNodes (m : Method) : List Expression :=
  Typings.codeNodes (m.body.getD [])

namespace DataDeclaration

/-- All subexpressions of the code of methods and of the constructor. -/
def codeNodes (d : DataDeclaration) : List Expression :=
  d.methods.flatMap (·.codeNodes) ++ d.ctor.toList.flatMap fun c => Typings.codeNodes c.body

def codeTypes (d : DataDeclaration) : List TypeExpr :=
  d.codeNodes.flatMap (·.ownTypes)

/-- The functions that the code of a declaration calls by name. -/
def calledNames (d : DataDeclaration) : List String :=
  d.codeNodes.filterMap (·.calledName?)

@[simp] theorem codeNodes_mapTypes (f : TypeExpr → TypeExpr) (d : DataDeclaration) :
    (d.mapTypes f).codeNodes = d.codeNodes := by
  have hctor : ((d.mapTypes f).ctor.toList.flatMap fun c => Typings.codeNodes c.body) =
      d.ctor.toList.flatMap fun c => Typings.codeNodes c.body := by
    cases h : d.ctor <;> simp [mapTypes, h]
  rw [codeNodes, codeNodes, hctor]
  simp [mapTypes, List.flatMap_map, Method.codeNodes]

end DataDeclaration

/-! ## Helpers -/

namespace Helper

/-- The functions of a helper that generated code calls. -/
def functions : Helper → List String
  | copyFunctions => ["__getCopyArrayFn", "__getCopyObjectFn", "__identity"]
  | uriEncoding => ["uriEncoding"]

end Helper

end Typings
