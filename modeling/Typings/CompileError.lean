import Typings.Settings.Basic
import Typings.Source.Pulls
import Typings.Symbol.Names

/-!
# Why a compilation fails

## Main definitions

* `CompileError`: the causes.
* `CompileError.message`: their wording.
-/

namespace Typings

/-- Why a compilation fails. -/
inductive CompileError where
  /-- Classes pull properties from each other in a cycle. -/
  | pullCycle (cycle : PullCycle)
  /-- Several declarations have the same name. -/
  | nameConflict (conflict : NameConflict)
  /-- The settings cannot be used together. -/
  | invalidSettings (fault : SettingsFault)
  deriving Repr, DecidableEq, Inhabited

/-- The wording of an error. -/
def CompileError.message : CompileError → String
  | pullCycle c =>
    "Cyclic pull-properties configuration: '" ++ c.declaration ++ "." ++ c.property ++
      "' pulls in a cycle (" ++ String.intercalate " -> " c.cycle ++ ")"
  | nameConflict c =>
    "Name conflict: multiple declarations map to the same name '" ++ c.name ++ "': " ++
      String.intercalate ", " c.owners
  | invalidSettings fault => "Invalid configuration: " ++ fault.message

end Typings
