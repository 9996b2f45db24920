import Typings.Emission.Quoted
import Typings.Type.Basic

/-!
# Types as text

The functions take the name of every symbol.

## Main definitions

* `TypeExpr.text`: a type as it is written.
* `TypeExpr.labelled`: something with its type.
* `TypeExpr.listText`, `Emission.typeParameterList`: types and type parameters in a row.
-/

namespace Typings

namespace Emission

/-- A text in parentheses, if they are wanted. -/
def parenthesizeIf (wanted : Bool) (text : String) : String :=
  if wanted then "(" ++ text ++ ")" else text

/-- Whether a type needs parentheses as the element of an array. -/
def isLooserThanArray : TypeExpr → Bool
  | .union members => 1 < members.length
  | .intersection members => 1 < members.length
  | .function .. | .optional _ => true
  | _ => false

/-- Whether a type needs parentheses as the member of an intersection. -/
def isLooserThanIntersection : TypeExpr → Bool
  | .union members => 1 < members.length
  | .function .. | .optional _ => true
  | _ => false

/-- A built-in type. -/
def primitiveText : Primitive → String
  | .string => "string"
  | .number => "number"
  | .boolean => "boolean"
  | .void => "void"
  | .null => "null"
  | .undefined => "undefined"
  | .temporal => "Date"

/-- Type parameters in angle brackets. -/
def typeParameterList (parameters : List String) : String :=
  if parameters.isEmpty then "" else "<" ++ String.intercalate ", " parameters ++ ">"

end Emission

open Emission

namespace TypeExpr

variable (name : Symbol → String)

mutual

/-- A type as it is written. -/
def text : TypeExpr → String
  | reference symbol [] => name symbol
  | reference symbol (arg :: args) =>
    name symbol ++ "<" ++ String.intercalate ", " (texts (arg :: args)) ++ ">"
  | union [] => "never"
  | union [single] => single.text
  | union (first :: second :: rest) =>
    String.intercalate " | " (unionTexts (first :: second :: rest))
  | intersection [] => "unknown"
  | intersection [single] => single.text
  | intersection (first :: second :: rest) =>
    String.intercalate " & " (intersectionTexts (first :: second :: rest))
  -- without parentheses the alternative would belong to the result of the function
  | optional inner => parenthesizeIf inner.isFunction inner.text ++ " | undefined"
  | array element => parenthesizeIf (isLooserThanArray element) element.text ++ "[]"
  | indexed key value => "\x7b [index: " ++ key.text ++ "]: " ++ value.text ++ " \x7d"
  | shape [] => "\x7b\x7d"
  | shape (field :: fields) =>
    "\x7b " ++ String.intercalate ", " (fieldTexts propertyName (field :: fields)) ++ " \x7d"
  | function params result =>
    "(" ++ String.intercalate ", " (fieldTexts id params) ++ ") => " ++ result.text
  | literal value => literalText value
  | var parameter => parameter
  | primitive kind => primitiveText kind
  | verbatim text => text
  | any => "any"
termination_by structural t => t

/-- Types as they are written. -/
def texts : List TypeExpr → List String
  | [] => []
  | t :: rest => t.text :: texts rest

/-- The members of a union. -/
def unionTexts : List TypeExpr → List String
  | [] => []
  | t :: rest => parenthesizeIf t.isFunction t.text :: unionTexts rest

/-- The members of an intersection. -/
def intersectionTexts : List TypeExpr → List String
  | [] => []
  | t :: rest => parenthesizeIf (isLooserThanIntersection t) t.text :: intersectionTexts rest

def fieldTexts (label : String → String) : List (String × TypeExpr) → List String
  | [] => []
  | (field, optional inner) :: rest =>
    (label field ++ "?: " ++ inner.text) :: fieldTexts label rest
  | (field, t) :: rest => (label field ++ ": " ++ t.text) :: fieldTexts label rest

end

@[simp]
theorem texts_eq_map (ts : List TypeExpr) : texts name ts = ts.map (text name) := by
  induction ts with
  | nil => simp [texts]
  | cons t rest ih => simp [texts, ih]

theorem unionTexts_eq_map (ts : List TypeExpr) :
    unionTexts name ts = ts.map fun t => parenthesizeIf t.isFunction (t.text name) := by
  induction ts with
  | nil => simp [unionTexts]
  | cons t rest ih => simp [unionTexts, ih]

theorem intersectionTexts_eq_map (ts : List TypeExpr) :
    intersectionTexts name ts =
      ts.map fun t => parenthesizeIf (isLooserThanIntersection t) (t.text name) := by
  induction ts with
  | nil => simp [intersectionTexts]
  | cons t rest ih => simp [intersectionTexts, ih]

/-- Something with its type; an optional type is marked at the label. -/
def labelled (label : String) : TypeExpr → String
  | optional inner => label ++ "?: " ++ inner.text name
  | t => label ++ ": " ++ t.text name

theorem fieldTexts_eq_map (label : String → String) (fields : List (String × TypeExpr)) :
    fieldTexts name label fields =
      fields.map fun field => field.2.labelled name (label field.1) := by
  induction fields with
  | nil => simp [fieldTexts]
  | cons field rest ih =>
    obtain ⟨field, t⟩ := field
    cases t <;> simp [fieldTexts, labelled, ih]

/-- Types in a row. -/
def listText (types : List TypeExpr) : String :=
  String.intercalate ", " (types.map (text name))

end TypeExpr

end Typings
