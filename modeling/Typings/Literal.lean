import Typings.Decimal.Shortest
import Typings.Text.Quoted

/-!
# Literal values

The values of literal types and of enum members.

## Main definitions

* `Literal`: a truth value, a number or a text.
* `Literal.equal`: equality of values; the two zeros are equal.
* `Literal.shown`: the value in messages.
-/

namespace Typings

/-- A literal value. -/
inductive Literal where
  | boolean (value : Bool)
  | number (value : Binary64)
  | text (value : String)
  deriving Repr, DecidableEq, Inhabited

namespace Literal

/-- Whether two literals have the same value. -/
def equal : Literal → Literal → Bool
  | boolean a, boolean b => a == b
  | number a, number b => a.equal b
  | text a, text b => a == b
  | _, _ => false

@[simp]
theorem equal_refl (l : Literal) : l.equal l = true := by
  cases l <;> simp [equal, Binary64.equal_refl]

def text? : Literal → Option String
  | text s => some s
  | _ => none

def isNumber : Literal → Bool
  | number _ => true
  | _ => false

/-- The literal in messages; a text is quoted. -/
def shown : Literal → String
  | boolean true => "true"
  | boolean false => "false"
  | number x => x.text
  | text s => Text.shown s

end Literal

end Typings
