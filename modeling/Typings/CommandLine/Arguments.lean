/-!
# Command line arguments

Arguments are read from left to right. The first that is wrong ends the reading with a usage error,
the first that asks for help ends it with the help text. An option takes its value from the same
argument or from the next one.

## Main definitions

* `Command`, `Invocation`: what is to be done.
* `Reading`: the outcome of reading arguments.
* `Invocation.ofArguments`: reads arguments.
-/

namespace Typings

/-- What is to be done. -/
inductive Command where
  /-- Generates declarations. -/
  | generate (input output : String) (config : Option String)
  /-- Checks a configuration. -/
  | validate (config : String)
  deriving Repr, DecidableEq, Inhabited

/-- A command with the amount of detail in the log. -/
structure Invocation where
  verbose : Bool := false
  debug : Bool := false
  command : Command
  deriving Repr, DecidableEq, Inhabited

/-- The commands that there is help for. -/
inductive HelpTopic where
  | program
  | generate
  | validate
  | help
  deriving Repr, DecidableEq, Inhabited

/-- The outcome of reading arguments. -/
inductive Reading (α : Type) where
  | done (value : α)
  /-- Help is asked for. -/
  | help (topic : HelpTopic)
  /-- The arguments are wrong. -/
  | usageError
  deriving Repr, DecidableEq, Inhabited

namespace Reading

/-- Goes on with what was read. -/
def andThen {α β : Type} (reading : Reading α) (next : α → Reading β) : Reading β :=
  match reading with
  | done value => next value
  | help topic => help topic
  | usageError => usageError

/-- What was read, an error if there is nothing. -/
def ofOption {α : Type} : Option α → Reading α
  | some value => done value
  | none => usageError

end Reading

/-! ## Options with values -/

/-- The options with values. -/
inductive Setting where
  | input
  | output
  | config
  deriving Repr, DecidableEq, Inhabited

namespace Setting

/-- The name of an option after two dashes. -/
def name : Setting → String
  | input => "input"
  | output => "output"
  | config => "config"

/-- The letter of an option after one dash. -/
def letter : Setting → Char
  | input => 'i'
  | output => 'o'
  | config => 'c'

end Setting

/-- The options of a command that were given so far, with their values. -/
abbrev Given := List (Setting × String)

/-- The options with a further one, which must be new and not empty. -/
def addGiven (given : Given) (setting : Setting) (value : String) : Reading Given :=
  if value.isEmpty || given.any (·.1 == setting) then .usageError
  else .done (given ++ [(setting, value)])

/-- Cuts a text at its first equality sign. -/
def cutAtEquals (cs : List Char) : List Char × Option (List Char) :=
  (cs.takeWhile (· ≠ '='), (cs.dropWhile (· ≠ '=')).tail?)

/-- An option as it is written: asking for help, with a value, or with the value to come. -/
inductive OptionArgument where
  | help
  | valued (setting : Setting) (value : String)
  | awaiting (setting : Setting)

/-- Reads an argument that starts with two dashes. -/
def longOption? (settings : List Setting) (cs : List Char) : Option OptionArgument :=
  let (label, value) := cutAtEquals cs
  let label := String.ofList label
  if label = "help" then
    if value.isNone then some .help else none
  else
    (settings.find? (·.name == label)).map fun setting =>
      match value with
      | some value => .valued setting (String.ofList value)
      | none => .awaiting setting

/-- Reads an argument that starts with one dash. -/
def shortOption? (settings : List Setting) (cs : List Char) : Option OptionArgument :=
  match cs with
  | [] => none
  | 'h' :: _ => some .help
  | letter :: rest =>
    (settings.find? (·.letter == letter)).map fun setting =>
      match rest with
      | [] => .awaiting setting
      | '=' :: value => .valued setting (String.ofList value)
      | value => .valued setting (String.ofList value)

/-- Reads an argument of a command that starts with a dash and is longer than that. -/
def option? (settings : List Setting) (argument : String) : Option OptionArgument :=
  match argument.toList with
  | '-' :: '-' :: cs => longOption? settings cs
  | '-' :: cs => shortOption? settings cs
  | _ => none

/-- Whether an argument is an option, not a value. -/
def isOption (argument : String) : Bool :=
  argument.startsWith "-" && argument ≠ "-"

/-- The options of a command. After `--` nothing may follow. -/
def readOptions (topic : HelpTopic) (settings : List Setting) (given : Given) :
    List String → Reading Given
  | [] => .done given
  | "--" :: rest => if rest.isEmpty then .done given else .usageError
  | argument :: rest =>
    if isOption argument then
      match option? settings argument with
      | none => .usageError
      | some .help => .help topic
      | some (.valued setting value) =>
        (addGiven given setting value).andThen fun given => readOptions topic settings given rest
      | some (.awaiting setting) =>
        -- the value is the next argument, unless that is an option itself
        match rest with
        | [] => .usageError
        | value :: rest =>
          if isOption value then .usageError
          else
            (addGiven given setting value).andThen fun given =>
              readOptions topic settings given rest
    else .usageError

/-! ## Commands -/

/-- The options of `generate`. The environment may name a configuration if the arguments do not. -/
def readGenerate (environment : Option String) (arguments : List String) : Reading Command :=
  (readOptions .generate [.input, .output, .config] [] arguments).andThen fun given =>
    let config := (given.lookup .config).or environment
    if config == some "" then .usageError
    else
      .ofOption do
        let input ← given.lookup .input
        let output ← given.lookup .output
        pure (.generate input output config)

/-- The options of `validate`. -/
def readValidate (arguments : List String) : Reading Command :=
  (readOptions .validate [.config] [] arguments).andThen fun given =>
    .ofOption ((given.lookup .config).map .validate)

/-- What `help` is asked about. -/
def readHelp : List String → Reading Command
  | [] => .help .program
  | ["generate"] => .help .generate
  | ["validate"] => .help .validate
  | ["help"] => .help .help
  | _ => .usageError

def readCommand (environment : Option String) (name : String) (arguments : List String) :
    Reading Command :=
  match name with
  | "generate" => readGenerate environment arguments
  | "validate" => readValidate arguments
  | "help" => readHelp arguments
  | _ => .usageError

/-- The switches in front of the command. -/
structure Switches where
  verbose : Bool := false
  debug : Bool := false
  deriving Repr, DecidableEq, Inhabited

/-- A letter after one dash; a switch is given once. -/
def readSwitch (switches : Switches) (letter : Char) : Reading Switches :=
  match letter with
  | 'v' => if switches.verbose then .usageError else .done { switches with verbose := true }
  | 'd' => if switches.debug then .usageError else .done { switches with debug := true }
  | 'h' => .help .program
  | _ => .usageError

/-- The letters after one dash. -/
def readLetters (switches : Switches) : List Char → Reading Switches
  | [] => .done switches
  | letter :: rest => (readSwitch switches letter).andThen fun switches => readLetters switches rest

/-- A switch in front of the command, with one dash or two. -/
def readSwitches (switches : Switches) (argument : String) : Reading Switches :=
  match argument with
  | "--verbose" => readSwitch switches 'v'
  | "--debug" => readSwitch switches 'd'
  | "--help" => .help .program
  | argument =>
    if argument.startsWith "--" then .usageError else readLetters switches (argument.toList.drop 1)

def readInvocation (environment : Option String) (switches : Switches) :
    List String → Reading Invocation
  | [] => .usageError
  | argument :: rest =>
    if isOption argument then
      (readSwitches switches argument).andThen fun switches =>
        readInvocation environment switches rest
    else
      (readCommand environment argument rest).andThen fun command =>
        .done { verbose := switches.verbose, debug := switches.debug, command }

/-- Reads the arguments of the program; `environment` is the configuration that the environment
names. -/
def Invocation.ofArguments (environment : Option String) (arguments : List String) :
    Reading Invocation :=
  readInvocation environment {} arguments

end Typings
