import Typings.EntityName
import Typings.Identifier

/-!
# Naming policies

A naming policy turns the name of a source entity into a target name: a custom name if one is given,
else the simple name with affixes removed and added, in a namespace of its packages if wanted.

## Main definitions

* `NamingPolicy`: the policies.
* `NamingPolicy.apply`: the target name of an entity.
-/

namespace Typings

/-- How target names are made of entity names. -/
structure NamingPolicy where
  /-- Written before every name. -/
  addPrefix : Option String := none
  /-- Written after every name. -/
  addSuffix : Option String := none
  /-- Removed from the start of names that have it. -/
  removePrefix : Option String := none
  /-- Removed from the end of names that have it. -/
  removeSuffix : Option String := none
  /-- Target names of single entities, by entity in increasing order; a dotted one picks a
  namespace. -/
  custom : List (String × String) := []
  /-- Whether packages become namespaces. -/
  mapPackagesToNamespaces : Bool := false
  deriving Repr, DecidableEq, Inhabited

namespace NamingPolicy

def withoutStart (start : Option String) (name : List Char) : List Char :=
  match start with
  | none => name
  | some s => if s.toList.isPrefixOf name then name.drop s.length else name

def withoutEnd (ending : Option String) (name : List Char) : List Char :=
  match ending with
  | none => name
  | some s => if s.toList.isSuffixOf name then name.take (name.length - s.length) else name

def simpleName (policy : NamingPolicy) (entity : String) : String :=
  let bare := withoutEnd policy.removeSuffix
    (withoutStart policy.removePrefix (EntityName.simple entity).toList)
  policy.addPrefix.getD "" ++ String.ofList bare ++ policy.addSuffix.getD ""

/-- A package segment as a namespace; a reserved word gets an underscore. -/
def namespaceSegment (segment : String) : String :=
  if isReservedWord segment then "_" ++ segment else segment

def apply (policy : NamingPolicy) (entity : String) : String :=
  match policy.custom.lookup entity with
  | some name => name
  | none =>
    let name := policy.simpleName entity
    if policy.mapPackagesToNamespaces then
      String.intercalate "." ((EntityName.packageSegments entity).map namespaceSegment ++ [name])
    else name

end NamingPolicy

end Typings
