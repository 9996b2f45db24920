import Typings.CommandLine.Arguments
import Typings.Text.Lines
import Typings.Text.Terminal

/-!
# Help texts

Help is written for a terminal, with the names of options and commands in bold. The lines that are
printed are those without styles.

## Main definitions

* `OptionHelp`: an option in a help text.
* `HelpTopic.styled`: the help for the program and its commands.
* `HelpTopic.lines`: the lines of a help that are printed.
-/

namespace Typings

/-- The text in bold. -/
def strong (text : String) : String :=
  "\x1b[1m" ++ text ++ "\x1b[0m"

def blanks (n : Nat) : String :=
  String.ofList (List.replicate n ' ')

/-- The text with its further lines indented to a column. -/
def indentedTo (column : Nat) (text : String) : String :=
  String.intercalate ("\n" ++ blanks column)
    ((Text.pieces (· = '\n') text.toList).map String.ofList)

/-- An option in a help text. -/
structure OptionHelp where
  letter : String
  word : String
  /-- The value that the option takes, if it takes one. -/
  value : Option String := none
  about : String
  deriving Repr, DecidableEq, Inhabited

namespace OptionHelp

/-- The value of the option after its names. -/
def valuePart (option : OptionHelp) : String :=
  (option.value.map fun value => " <" ++ value ++ ">").getD ""

/-- How many columns the long name of the option takes with its value. -/
def width (option : OptionHelp) : Nat :=
  2 + option.word.length + option.valuePart.length

/-- The option with what it is about, starting at a column. -/
def line (column : Nat) (option : OptionHelp) : String :=
  "  " ++ strong ("-" ++ option.letter) ++ ", " ++ strong ("--" ++ option.word) ++
    option.valuePart ++ blanks (column - 6 - option.width) ++ indentedTo column option.about

/-- The options below each other, two columns between the longest one and what it is about. -/
def table (options : List OptionHelp) : List String :=
  let column := 8 + (options.map width).foldl max 0
  strong "Options:" :: options.map (line column)

end OptionHelp

def helpOption : OptionHelp :=
  { letter := "h", word := "help", about := "Print help" }

/-- The head of a help: what it is about and how the program is called. -/
def helpHead (about call arguments : String) : List String :=
  [about, "", strong "Usage:" ++ " " ++ strong call ++ " " ++ arguments, ""]

def programHelp : List String :=
  helpHead "Compile reflected class graphs into TypeScript declarations" "tscribe"
      "[OPTIONS] <COMMAND>" ++
    [strong "Commands:",
     "  " ++ strong "generate" ++ "  Generate TypeScript from a source graph",
     "  " ++ strong "validate" ++ "  Check a config file without compiling anything",
     "  " ++ strong "help" ++ "      Print this message or the help of the given subcommand(s)",
     ""] ++
    OptionHelp.table
      [{ letter := "v", word := "verbose", about := "Enable verbose output" },
       { letter := "d", word := "debug", about := "Enable debug output" }, helpOption]

/-- The help for `generate`, with what the environment names. -/
def generateHelp (environment : Option String) : List String :=
  helpHead "Generate TypeScript from a source graph" "tscribe generate"
      ("[OPTIONS] " ++ strong "--input" ++ " <INPUT> " ++ strong "--output" ++ " <OUTPUT>") ++
    OptionHelp.table
      [{ letter := "i", word := "input", value := some "INPUT",
         about := "Input source graph (JSON format)" },
       { letter := "o", word := "output", value := some "OUTPUT", about := "Output file path" },
       { letter := "c", word := "config", value := some "CONFIG",
         about := "Config file with [compiler] and [output] tables [env: TSCRIBE_CONFIG=" ++
           environment.getD "" ++ "]" },
       helpOption]

/-- The help for `validate`. -/
def validateHelp : List String :=
  helpHead "Check a config file without compiling anything" "tscribe validate"
      (strong "--config" ++ " <CONFIG>") ++
    OptionHelp.table
      [{ letter := "c", word := "config", value := some "CONFIG", about := "Config file to check" },
       helpOption]

/-- The help for `help`. -/
def helpHelp : List String :=
  helpHead "Print this message or the help of the given subcommand(s)" "tscribe help"
      "[COMMAND]..." ++
    [strong "Arguments:", "  [COMMAND]...  Print help for the subcommand(s)"]

namespace HelpTopic

/-- The help for a topic as it is written for a terminal. -/
def styled (environment : Option String) : HelpTopic → List String
  | program => programHelp
  | generate => generateHelp environment
  | validate => validateHelp
  | help => helpHelp

/-- The lines of the help that are printed. The styles are taken out of the whole text, because a
sequence in the environment may run over the end of its line. -/
def lines (environment : Option String) (topic : HelpTopic) : List String :=
  let text := String.intercalate "\n" (topic.styled environment) ++ "\n"
  Text.lines (Text.unstyled text)

end HelpTopic

end Typings
