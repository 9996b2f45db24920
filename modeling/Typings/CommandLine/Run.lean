import Typings.CommandLine.Help
import Typings.Generation

/-!
# Running the program

## Main definitions

* `perform`: runs a command.
* `Outcome`: the exit code of a run and what it printed.
* `runProgram`: runs the program with arguments.
-/

namespace Typings

variable {m : Type → Type} [Monad m]

def perform (files : FileAccess m) : Command → Run m Unit
  | .generate input output path => do
    let config ← loadConfig files path
    let generated ← generate files input output config
    Run.report .info .commandLine
      ("Emitted " ++ toString generated.declarations ++ " declaration(s)")
    if !generated.warnings.isEmpty then
      Run.report .warn .commandLine (Warning.summary generated.warnings)
  | .validate path => do
    let _ ← loadConfig files (some path)
    Run.report .info .commandLine ("Config " ++ Text.shown path ++ " is valid")

/-- The most detailed level that is printed. -/
def Invocation.level (invocation : Invocation) : Level :=
  if invocation.debug then .trace else if invocation.verbose then .debug else .info

def Invocation.logLines (invocation : Invocation) (events : List Event) : List String :=
  (events.filter fun event => event.level.rank ≤ invocation.level.rank).flatMap
    (·.lines invocation.debug)

/-- The exit code of a run and what it printed. -/
structure Outcome where
  exitCode : Nat
  output : List String := []
  errors : List String := []
  deriving Repr, DecidableEq, Inhabited

/-- A cause as it is printed. -/
def Cause.shown : Cause → String
  | wording text => text
  | fileAccess => "cannot access file"
  | jsonForm => "unexpected JSON"
  | tomlForm => "unexpected TOML"

/-- A failure as it is printed. -/
def Failure.lines (failure : Failure) : List String :=
  Text.lines ("Error: " ++ failure.message ++ "\n") ++
    (if failure.causes.isEmpty then []
    else "" :: "Caused by:" :: failure.causes.map fun cause => "    " ++ cause.shown)

/-- Runs the program with arguments; `environment` is the configuration that the environment
names. -/
def runProgram (files : FileAccess m) (environment : Option String) (arguments : List String) :
    m Outcome := do
  match Invocation.ofArguments environment arguments with
  | .usageError =>
    pure { exitCode := 2, errors := ["error: invalid arguments", ""] ++
      HelpTopic.program.lines none }
  | .help topic => pure { exitCode := 0, output := topic.lines environment }
  | .done invocation =>
    let (result, events) ← (perform files invocation.command).run.run []
    let output := invocation.logLines events
    match result with
    | .ok () => pure { exitCode := 0, output }
    | .error failure => pure { exitCode := 1, output, errors := failure.lines }

end Typings
