import Typings.Text.Lines
import Typings.Text.Quoted

/-!
# Log lines

A run reports events. An event has a level, the component that reports it, a message and the spans
of work in which it happened, outermost first. The lines go to a terminal, so the control characters
of a message that would steer it are written out.

## Main definitions

* `Level`, `Component`, `Event`: events.
* `Span`: a piece of work with its measures.
* `loggedChar`: a character of a message in a log line.
* `Event.lines`: an event as the lines that are printed.
-/

namespace Typings

/-- How important an event is. -/
inductive Level where
  | error
  | warn
  | info
  | debug
  | trace
  deriving Repr, DecidableEq, Inhabited

namespace Level

/-- The position of a level; more detailed levels come later. -/
def rank : Level → Nat
  | error => 0
  | warn => 1
  | info => 2
  | debug => 3
  | trace => 4

/-- The level at the start of a line, five characters wide. -/
def label : Level → String
  | error => "ERROR"
  | warn => " WARN"
  | info => " INFO"
  | debug => "DEBUG"
  | trace => "TRACE"

end Level

/-- The part of the program that reports an event. -/
inductive Component where
  | symbols
  | mapping
  | building
  | warnings
  | compilation
  | inheritance
  | dates
  | unions
  | services
  | ordering
  | emission
  | generation
  | commandLine
  deriving Repr, DecidableEq, Inhabited

/-- The name of a component in detailed log lines. -/
def Component.path : Component → String
  | symbols => "tscribe_core::symbols"
  | mapping => "tscribe_core::mapper"
  | building => "tscribe_core::builder"
  | warnings => "tscribe_core::diagnostics"
  | compilation => "tscribe_core::pipeline"
  | inheritance => "tscribe_core::passes::inheritance"
  | dates => "tscribe_core::passes::dates"
  | unions => "tscribe_core::passes::tagged_unions"
  | services => "tscribe_core::passes::rest"
  | ordering => "tscribe_core::passes::sort"
  | emission => "tscribe_codegen::typescript"
  | generation => "tscribe_cli"
  | commandLine => "tscribe"

/-- A piece of work with its measures. -/
structure Span where
  name : String
  measures : List (String × Nat)
  deriving Repr, DecidableEq, Inhabited

/-- A span as it is printed. -/
def Span.shown (span : Span) : String :=
  span.name ++ "\x7b" ++
    String.intercalate " " (span.measures.map fun m => m.1 ++ "=" ++ toString m.2) ++ "\x7d"

/-- Whether the character is one of the ASCII controls that steer a terminal: the bell, a backspace,
a form feed, an escape or a deletion. -/
def steersTerminal (c : Char) : Bool :=
  c = '\x07' || c = '\x08' || c = '\x0c' || c = '\x1b' || c = '\x7f'

/-- A character of a message as it stands in a log line. -/
def loggedChar (c : Char) : List Char :=
  if steersTerminal c then
    let digits := Text.hexDigits c.toNat
    ['\\', 'x'] ++ List.replicate (2 - digits.length) '0' ++ digits
  -- the controls above ASCII open sequences of their own
  else if 0x80 ≤ c.toNat ∧ c.toNat ≤ 0x9f then
    ['\\', 'u', '\x7b'] ++ Text.hexDigits c.toNat ++ ['\x7d']
  else [c]

/-- A message as it stands in log lines. -/
def loggedText (message : String) : String :=
  String.ofList (message.toList.flatMap loggedChar)

/-- Something that a run reports. -/
structure Event where
  level : Level
  component : Component
  message : String
  /-- The spans in which the event happened, outermost first. -/
  spans : List Span := []
  deriving Repr, DecidableEq, Inhabited

namespace Event

/-- The event as part of a larger piece of work. -/
def within (span : Span) (event : Event) : Event :=
  { event with spans := span :: event.spans }

/-- The event as it is printed, with its component if that is wanted. -/
def shown (withComponent : Bool) (event : Event) : String :=
  let spans := String.intercalate ":" (event.spans.map (·.shown))
  event.level.label ++ " " ++ (if event.spans.isEmpty then "" else spans ++ ": ") ++
    (if withComponent then event.component.path ++ ": " else "") ++ loggedText event.message

def lines (withComponent : Bool) (event : Event) : List String :=
  Text.lines (event.shown withComponent ++ "\n")

end Event

end Typings
