import Typings.CompileError
import Typings.Emission.Options
import Typings.Settings.Document
import Typings.Toml.Reader

/-!
# Configuration

Settings and options are written in TOML, in one file with a table for each, or settings alone.

## Main definitions

* `Cause`, `Failure`: why a run fails, in the words of the run and with what is behind it.
* `Settings.ofToml`: settings alone.
* `Config`, `Config.ofToml`: a configuration.
-/

namespace Typings

/-- What is behind a failure. -/
inductive Cause where
  | wording (text : String)
  /-- A file or directory cannot be read or written. -/
  | fileAccess
  /-- A text is not the JSON that is wanted. -/
  | jsonForm
  /-- A text is not the TOML that is wanted. -/
  | tomlForm
  deriving Repr, DecidableEq, Inhabited

/-- Why a run fails: a message and what is behind it, outermost first. -/
structure Failure where
  message : String
  causes : List Cause
  deriving Repr, DecidableEq, Inhabited

/-- The failure as the cause of another one. -/
def Failure.within (failure : Failure) (message : String) : Failure :=
  { message, causes := .wording failure.message :: failure.causes }

/-- Why settings cannot be loaded. -/
inductive SettingsError where
  /-- The file cannot be read. -/
  | unreadable
  /-- The text is not TOML, or its values are not settings. -/
  | malformed
  /-- The settings cannot be used together. -/
  | invalid (fault : SettingsFault)
  deriving Repr, DecidableEq, Inhabited

/-- The settings, unless they cannot be used together. -/
def Settings.checked (settings : Settings) : Except SettingsError Settings :=
  match settings.fault? with
  | some fault => .error (.invalid fault)
  | none => .ok settings

/-- Reads settings. -/
def Settings.ofToml (text : String) : Except SettingsError Settings :=
  match (Toml.read? text).bind (Settings.ofJson? .toml) with
  | some settings => settings.checked
  | none => .error .malformed

/-- A configuration. -/
structure Config where
  compiler : Settings := {}
  output : EmitOptions := {}
  deriving Repr, DecidableEq, Inhabited

namespace Config

/-- Reads the tables of a configuration. -/
def ofJson? (format : Format) (value : Json) : Option Config := do
  let record ← Record.ofJson? format ["compiler", "output"] value
  let compiler ← record.default? "compiler" {} (Settings.ofJson? format)
  let output ← record.default? "output" {} (EmitOptions.ofJson? format)
  pure { compiler, output }

/-- A configuration as JSON. -/
def toJson (config : Config) : Json :=
  .object [("compiler", config.compiler.toJson), ("output", config.output.toJson)]

/-- Reads a configuration. -/
def ofToml (text : String) : Except Failure Config :=
  match (Toml.read? text).bind (ofJson? .toml) with
  | none => .error { message := "Failed to parse config", causes := [.tomlForm] }
  | some config =>
    match config.compiler.fault? with
    | none => .ok config
    | some fault =>
      .error
        { message := "Invalid [compiler] settings"
          causes := [.wording (CompileError.invalidSettings fault).message] }

end Config

end Typings
