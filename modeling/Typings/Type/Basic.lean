import Typings.Literal
import Typings.Symbol.Basic

/-!
# Type expressions

The types of the target language. Declarations are referred to by their symbols.

## Main definitions

* `TypeExpr`: the expressions.
* `TypeExpr.transform`: rebuilds an expression from its leaves to its root.
* `TypeExpr.nodes`: all subexpressions, parents before their parts.
* `TypeExpr.equal`: equality, which compares number literals by value.
* `TypeExpr.symbols`: the symbols that an expression refers to, in the order of its text.

## Main results

* `TypeExpr.transformAll_eq_map`, `TypeExpr.nodesAll_eq_flatMap` and their kin: the functions on
  lists of types and of fields are the pointwise ones.
-/

namespace Typings

/-- The built-in types. `temporal` stands for dates until their representation is chosen. -/
inductive Primitive where
  | string
  | number
  | boolean
  | void
  | null
  | undefined
  | temporal
  deriving Repr, DecidableEq, Inhabited

/-- A type of the target language. -/
inductive TypeExpr where
  /-- A declaration applied to type arguments. -/
  | reference (symbol : Symbol) (args : List TypeExpr)
  | union (members : List TypeExpr)
  | intersection (members : List TypeExpr)
  /-- A value that may be absent. -/
  | optional (inner : TypeExpr)
  | array (element : TypeExpr)
  /-- An object with a value for every key. -/
  | indexed (key : TypeExpr) (value : TypeExpr)
  /-- An object with the given fields. -/
  | shape (fields : List (String × TypeExpr))
  | function (params : List (String × TypeExpr)) (result : TypeExpr)
  | literal (value : Literal)
  /-- A type variable. -/
  | var (name : String)
  | primitive (kind : Primitive)
  /-- A type written as configured. -/
  | verbatim (text : String)
  | any
  deriving Repr, Inhabited

namespace TypeExpr

/-- The type of texts. -/
abbrev string : TypeExpr := primitive .string

abbrev number : TypeExpr := primitive .number

/-- The placeholder for dates. -/
abbrev temporal : TypeExpr := primitive .temporal

/-- A reference without type arguments. -/
abbrev bare (symbol : Symbol) : TypeExpr := reference symbol []

/-- A map from texts. -/
def stringMap (value : TypeExpr) : TypeExpr := indexed string value

def isOptional : TypeExpr → Bool
  | optional _ => true
  | _ => false

/-- The type made optional; an optional type stays as it is. -/
def orAbsent (t : TypeExpr) : TypeExpr :=
  if t.isOptional then t else optional t

/-- The type without an outer `optional`. -/
def present : TypeExpr → TypeExpr
  | optional inner => inner
  | t => t

def isFunction : TypeExpr → Bool
  | function .. => true
  | _ => false

/-- The declaration that the type refers to at its root. -/
def referenced? : TypeExpr → Option Symbol
  | reference symbol _ => some symbol
  | _ => none

/-- The declaration that the type is a reference to, if it has no type arguments. -/
def bareSymbol? : TypeExpr → Option Symbol
  | reference symbol [] => some symbol
  | _ => none

/-- Whether the type is the reference to `symbol` without type arguments. -/
def isBareReferenceTo (t : TypeExpr) (symbol : Symbol) : Bool :=
  t.bareSymbol? == some symbol

/-- The text literals as one type: a single literal stands alone, several form a union. -/
def literalUnion (values : List String) : TypeExpr :=
  match values with
  | [value] => literal (.text value)
  | values => union (values.map fun value => literal (.text value))

/-! ## Rebuilding -/

mutual

/-- Rebuilds an expression: first its parts, then `f` is applied to the rebuilt expression. -/
def transform (f : TypeExpr → TypeExpr) : TypeExpr → TypeExpr
  | reference symbol args => f (reference symbol (transformAll f args))
  | union members => f (union (transformAll f members))
  | intersection members => f (intersection (transformAll f members))
  | optional inner => f (optional (inner.transform f))
  | array element => f (array (element.transform f))
  | indexed key value => f (indexed (key.transform f) (value.transform f))
  | shape fields => f (shape (transformFields f fields))
  | function params result => f (function (transformFields f params) (result.transform f))
  | literal value => f (literal value)
  | var name => f (var name)
  | primitive kind => f (primitive kind)
  | verbatim text => f (verbatim text)
  | any => f any

/-- Rebuilds every type of a list. -/
def transformAll (f : TypeExpr → TypeExpr) : List TypeExpr → List TypeExpr
  | [] => []
  | t :: rest => t.transform f :: transformAll f rest

/-- Rebuilds the type of every field. -/
def transformFields (f : TypeExpr → TypeExpr) : List (String × TypeExpr) → List (String × TypeExpr)
  | [] => []
  | (name, t) :: rest => (name, t.transform f) :: transformFields f rest

end

@[simp]
theorem transformAll_eq_map (f : TypeExpr → TypeExpr) (ts : List TypeExpr) :
    transformAll f ts = ts.map (transform f) := by
  induction ts with
  | nil => rfl
  | cons t rest ih => simp [transformAll, ih]

@[simp]
theorem transformFields_eq_map (f : TypeExpr → TypeExpr) (fields : List (String × TypeExpr)) :
    transformFields f fields = fields.map fun field => (field.1, field.2.transform f) := by
  induction fields with
  | nil => rfl
  | cons field rest ih => simp [transformFields, ih]

/-- Replaces references without type arguments by what the substitution has for their symbols. -/
def replaceBare (substitution : Symbol → Option TypeExpr) : TypeExpr → TypeExpr :=
  transform fun t => (t.bareSymbol?.bind substitution).getD t

/-! ## Subexpressions -/

mutual

/-- All subexpressions, each before its parts. -/
def nodes : TypeExpr → List TypeExpr
  | reference symbol args => reference symbol args :: nodesAll args
  | union members => union members :: nodesAll members
  | intersection members => intersection members :: nodesAll members
  | optional inner => optional inner :: inner.nodes
  | array element => array element :: element.nodes
  | indexed key value => indexed key value :: (key.nodes ++ value.nodes)
  | shape fields => shape fields :: nodesFields fields
  | function params result => function params result :: (nodesFields params ++ result.nodes)
  | literal value => [literal value]
  | var name => [var name]
  | primitive kind => [primitive kind]
  | verbatim text => [verbatim text]
  | any => [any]

/-- The subexpressions of every type of a list. -/
def nodesAll : List TypeExpr → List TypeExpr
  | [] => []
  | t :: rest => t.nodes ++ nodesAll rest

/-- The subexpressions of the type of every field. -/
def nodesFields : List (String × TypeExpr) → List TypeExpr
  | [] => []
  | (_, t) :: rest => t.nodes ++ nodesFields rest

end

@[simp]
theorem nodesAll_eq_flatMap (ts : List TypeExpr) : nodesAll ts = ts.flatMap nodes := by
  induction ts with
  | nil => rfl
  | cons t rest ih => simp [nodesAll, ih]

@[simp]
theorem nodesFields_eq_flatMap (fields : List (String × TypeExpr)) :
    nodesFields fields = fields.flatMap fun field => field.2.nodes := by
  induction fields with
  | nil => rfl
  | cons field rest ih => simp [nodesFields, ih]

mutual

/-- All subexpressions, each after its parts: the order in which an expression is rebuilt. -/
def nodesUpward : TypeExpr → List TypeExpr
  | reference symbol args => nodesUpwardAll args ++ [reference symbol args]
  | union members => nodesUpwardAll members ++ [union members]
  | intersection members => nodesUpwardAll members ++ [intersection members]
  | optional inner => inner.nodesUpward ++ [optional inner]
  | array element => element.nodesUpward ++ [array element]
  | indexed key value => key.nodesUpward ++ value.nodesUpward ++ [indexed key value]
  | shape fields => nodesUpwardFields fields ++ [shape fields]
  | function params result =>
    nodesUpwardFields params ++ result.nodesUpward ++ [function params result]
  | literal value => [literal value]
  | var name => [var name]
  | primitive kind => [primitive kind]
  | verbatim text => [verbatim text]
  | any => [any]

/-- The subexpressions of every type of a list, parts first. -/
def nodesUpwardAll : List TypeExpr → List TypeExpr
  | [] => []
  | t :: rest => t.nodesUpward ++ nodesUpwardAll rest

/-- The subexpressions of the type of every field, parts first. -/
def nodesUpwardFields : List (String × TypeExpr) → List TypeExpr
  | [] => []
  | (_, t) :: rest => t.nodesUpward ++ nodesUpwardFields rest

end

/-- Whether some subexpression satisfies the test. -/
def contains (t : TypeExpr) (test : TypeExpr → Bool) : Bool :=
  t.nodes.any test

/-- Whether the expression is the placeholder for dates. -/
def isTemporal : TypeExpr → Bool
  | primitive .temporal => true
  | _ => false

/-- The symbols that an expression refers to, in the order of its text. -/
def symbols (t : TypeExpr) : List Symbol :=
  t.nodes.filterMap referenced?

/-! ## Equality -/

mutual

/-- Whether two expressions are the same, number literals compared by value. -/
def equal : TypeExpr → TypeExpr → Bool
  | reference s as, reference t bs => s == t && equalAll as bs
  | union as, union bs => equalAll as bs
  | intersection as, intersection bs => equalAll as bs
  | optional a, optional b => a.equal b
  | array a, array b => a.equal b
  | indexed k v, indexed l w => k.equal l && v.equal w
  | shape fs, shape gs => equalFields fs gs
  | function ps r, function qs s => equalFields ps qs && r.equal s
  | literal a, literal b => Literal.equal a b
  | var a, var b => a == b
  | primitive a, primitive b => a == b
  | verbatim a, verbatim b => a == b
  | any, any => true
  | _, _ => false

/-- Whether two lists of types are the same. -/
def equalAll : List TypeExpr → List TypeExpr → Bool
  | [], [] => true
  | a :: as, b :: bs => a.equal b && equalAll as bs
  | _, _ => false

/-- Whether two lists of fields are the same. -/
def equalFields : List (String × TypeExpr) → List (String × TypeExpr) → Bool
  | [], [] => true
  | (m, a) :: as, (n, b) :: bs => m == n && a.equal b && equalFields as bs
  | _, _ => false

end

instance : BEq TypeExpr := ⟨equal⟩

end TypeExpr

end Typings
