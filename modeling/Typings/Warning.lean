/-!
# Warnings

Problems that do not stop a compilation.

## Main definitions

* `Warning`: a category, a location and a message.
* `Warning.shown`: the warning as it is printed.
* `Warning.summary`: all warnings, grouped by category.
-/

namespace Typings

/-- Where a warning was raised; every part may be missing. -/
structure Location where
  /-- The source entity. -/
  declaration : Option String := none
  property : Option String := none
  /-- The endpoint. -/
  method : Option String := none
  deriving Repr, DecidableEq, Inhabited

/-- The location as it is printed. -/
def Location.shown (location : Location) : String :=
  match location.declaration, location.property, location.method with
  | some d, some p, _ => d ++ "." ++ p
  | some d, none, none => d
  | _, _, some m => m
  | none, some p, none => "::" ++ p
  | none, none, none => "<unknown location>"

/-- What a warning is about. -/
inductive WarningCategory where
  /-- A source type was not recognised. -/
  | unresolvedType
  /-- A name cannot be used as an identifier. -/
  | invalidIdentifier
  /-- A declaration that is referred to is not there. -/
  | missingDeclaration
  deriving Repr, DecidableEq, Inhabited

namespace WarningCategory

/-- The category as it is printed. -/
def shown : WarningCategory → String
  | unresolvedType => "UNRESOLVED_TYPE"
  | invalidIdentifier => "INVALID_IDENTIFIER"
  | missingDeclaration => "MISSING_DECLARATION"

/-- All categories, in the order of a summary. -/
def all : List WarningCategory :=
  [unresolvedType, invalidIdentifier, missingDeclaration]

end WarningCategory

/-- A problem that does not stop a compilation. -/
structure Warning where
  category : WarningCategory
  location : Location := {}
  message : String
  deriving Repr, DecidableEq, Inhabited

namespace Warning

/-- The warning as it is printed. -/
def shown (warning : Warning) : String :=
  "[" ++ warning.category.shown ++ "] at " ++ warning.location.shown ++ ": " ++ warning.message

/-- A source type that was not recognised. -/
def ofUnresolvedType (type declaration property : String) : Warning :=
  { category := .unresolvedType
    location := { declaration := some declaration, property := some property }
    message := "Unsupported type '" ++ type ++ "' used in '" ++ declaration ++ "." ++
      property ++ "'" }

/-- The name of a group that cannot be used as an identifier. -/
def ofInvalidIdentifier (value method fallback : String) : Warning :=
  { category := .invalidIdentifier
    location := { method := some method }
    message := "Grouping value '" ++ value ++ "' of method '" ++ method ++
      "' is not a valid identifier, using '" ++ fallback ++ "' instead" }

def ofMissingPull (type declaration property : String) : Warning :=
  { category := .missingDeclaration
    location := { declaration := some declaration, property := some property }
    message :=
      "Cannot pull properties of '" ++ type ++ "' into '" ++ declaration ++ "." ++ property ++
      "': type is not declared" }

/-- How many warnings of a category a summary lists. -/
def summaryLimit : Nat := 10

/-- The part of a summary for one category; none if there is no such warning. -/
def categorySummary (warnings : List Warning) (category : WarningCategory) : List String :=
  let found := warnings.filter (·.category == category)
  if found.isEmpty then []
  else
    ("## " ++ category.shown ++ " (" ++ toString found.length ++ "):") ::
      (found.take summaryLimit).map (fun warning => "  - " ++ warning.shown) ++
      (if summaryLimit < found.length then
        ["  ... and " ++ toString (found.length - summaryLimit) ++ " more"]
      else [])

/-- The warnings grouped by category. -/
def summary (warnings : List Warning) : String :=
  if warnings.isEmpty then "No warnings"
  else
    String.intercalate "\n"
      (("Found " ++ toString warnings.length ++ " warning(s):") ::
        WarningCategory.all.flatMap (categorySummary warnings))

end Warning

end Typings
