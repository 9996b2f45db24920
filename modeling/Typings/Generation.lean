import Typings.Compile
import Typings.Config
import Typings.Emission.Document
import Typings.FileTree
import Typings.Json.Reader
import Typings.Source.Document

/-!
# Generating files

A run reads a configuration and a source graph and writes the declarations. How files are accessed
is a parameter: a run works on the files of the system and on a `FileTree` alike.

## Main definitions

* `FileAccess`: the operations on files that a run needs.
* `Run`: a computation that may fail and that reports events.
* `loadConfig`, `generate`: the runs.
* `FileTree.access`: access to a tree.
-/

namespace Typings

/-- The operations on files that a run needs. -/
structure FileAccess (m : Type → Type) where
  /-- The content of a file, none if it cannot be read. -/
  readText? : String → m (Option String)
  /-- Creates a directory and those above it; whether that was possible. -/
  createDirectories : String → m Bool
  /-- Writes a file; whether that was possible. -/
  writeText : String → String → m Bool

/-- A computation that may fail and that reports events. -/
abbrev Run (m : Type → Type) := ExceptT Failure (StateT (List Event) m)

def FileTree.access : FileAccess (StateM FileTree) where
  readText? path := do
    pure ((← get).read? path)
  createDirectories path := do
    match (← get).createDirectories? path with
    | some tree => set tree; pure true
    | none => pure false
  writeText path content := do
    match (← get).write? path content with
    | some tree => set tree; pure true
    | none => pure false

namespace Run

variable {m : Type → Type} [Monad m]

def reportAll (events : List Event) : Run m Unit :=
  modify (· ++ events)

/-- Reports an event. -/
def report (level : Level) (component : Component) (message : String) : Run m Unit :=
  reportAll [{ level, component, message }]

def fail {α : Type} (message : String) (cause : Cause) : Run m α :=
  throw { message, causes := [cause] }

/-- Does something with files. -/
def access {α : Type} (action : m α) : Run m α :=
  ExceptT.lift (StateT.lift action)

end Run

variable {m : Type → Type} [Monad m]

/-- The configuration at a path, the defaults if there is none. -/
def loadConfig (files : FileAccess m) (path : Option String) : Run m Config := do
  match path with
  | none =>
    Run.report .debug .generation "No config file given, using defaults"
    pure {}
  | some path =>
    match ← Run.access (files.readText? path) with
    | none => Run.fail ("Failed to read config file: " ++ path) .fileAccess
    | some text =>
      match Config.ofToml text with
      | .ok config => pure config
      | .error failure => throw (failure.within ("Failed to load config file: " ++ path))

def Settings.ofFile (tree : FileTree) (path : String) : Except SettingsError Settings :=
  match tree.read? path with
  | some text => Settings.ofToml text
  | none => .error .unreadable

/-- What a run generated. -/
structure Generated where
  declarations : Nat
  warnings : List Warning
  deriving Repr, DecidableEq, Inhabited

def readGraph (files : FileAccess m) (path : String) : Run m SourceGraph := do
  match ← Run.access (files.readText? path) with
  | none => Run.fail ("Failed to read source graph: " ++ Text.shown path) .fileAccess
  | some text =>
    match (Json.read? text).bind SourceGraph.ofJson? with
    | some graph => pure graph
    | none => Run.fail "Failed to parse source graph JSON" .jsonForm

/-- The compiled declarations of the graph that was read from a file. -/
def compileGraph (path : String) (graph : SourceGraph) (settings : Settings) : Run m Compiled := do
  let (result, session) := runCompile graph settings
  -- a compilation that fails has reported events as well
  Run.reportAll session.events
  match result with
  | .ok compiled => pure compiled
  | .error e => Run.fail ("Failed to compile " ++ Text.shown path) (.wording e.message)

/-- The text of compiled declarations. -/
def emitCompiled (compiled : Compiled) (options : EmitOptions) : Run m String := do
  Run.reportAll (emitEvents options compiled.names compiled.model)
  match emit options compiled.names compiled.model with
  | .ok text => pure text
  | .error e => Run.fail "Failed to emit TypeScript" (.wording e.message)

/-- Writes a file and the directories above it. -/
def writeOutput (files : FileAccess m) (path text : String) : Run m Unit := do
  match parentPath? path with
  -- the working directory is there already
  | none => pure ()
  | some parent =>
    if !(← Run.access (files.createDirectories parent)) then
      Run.fail ("Failed to create output directory: " ++ Text.shown parent) .fileAccess
  if !(← Run.access (files.writeText path text)) then
    Run.fail ("Failed to write output: " ++ Text.shown path) .fileAccess

/-- Compiles the graph at a path and writes the declarations to another one. -/
def generate (files : FileAccess m) (input output : String) (config : Config) :
    Run m Generated := do
  Run.report .info .generation ("Generating TypeScript from " ++ Text.shown input)
  let graph ← readGraph files input
  let compiled ← compileGraph input graph config.compiler
  let text ← emitCompiled compiled config.output
  writeOutput files output text
  Run.report .info .generation ("Generated code written to " ++ Text.shown output)
  pure { declarations := compiled.model.declarations.length, warnings := compiled.warnings }

end Typings
