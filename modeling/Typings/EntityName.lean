import Typings.Text.Lines

/-!
# Names of source entities

An entity is named by dotted package segments, the names of its enclosing classes separated by `$`
and its own simple name: `com.example.Outer$Inner`.

## Main definitions

* `EntityName.simple`: the last part of a name.
* `EntityName.packageSegments`: all parts before it.
* `EntityName.splitNamespace`: a dotted target name cut before its last part.
-/

namespace Typings.EntityName

open Text (pieces)

/-- The part after the last separator. -/
def lastPiece (isSeparator : Char → Bool) (cs : List Char) : List Char :=
  ((pieces isSeparator cs).getLast?).getD []

def simple (entity : String) : String :=
  String.ofList (lastPiece (· == '$') (lastPiece (· == '.') entity.toList))

/-- The packages and the enclosing classes of an entity. -/
def packageSegments (entity : String) : List String :=
  ((pieces (fun c => c == '.' || c == '$') entity.toList).dropLast).map String.ofList

/-- A dotted name cut at its last dot; no namespace if there is no dot. -/
def splitNamespace (fullName : String) : Option String × String :=
  let parts := pieces (· == '.') fullName.toList
  match parts.dropLast with
  | [] => (none, fullName)
  | space =>
    (some (String.ofList (['.'].intercalate space)), String.ofList ((parts.getLast?).getD []))

end Typings.EntityName
