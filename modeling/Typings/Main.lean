import Typings.CommandLine.Run

/-!
# The program

Access to the files of the system, and the entry point.
-/

namespace Typings

def succeeds (action : IO Unit) : IO Bool := do
  match ← action.toBaseIO with
  | .ok _ => pure true
  | .error _ => pure false

def systemFiles : FileAccess IO where
  readText? path := do
    match ← (IO.FS.readFile path).toBaseIO with
    | .ok text => pure (some text)
    | .error _ => pure none
  createDirectories path := succeeds (IO.FS.createDirAll path)
  writeText path text := succeeds (IO.FS.writeFile path text)

end Typings

/-- Runs the program. -/
def main (arguments : List String) : IO UInt32 := do
  let environment ← IO.getEnv "TSCRIBE_CONFIG"
  let outcome ← Typings.runProgram Typings.systemFiles environment arguments
  outcome.output.forM IO.println
  outcome.errors.forM IO.eprintln
  pure (UInt32.ofNat outcome.exitCode)
