import Typings.Log
import Typings.Symbol.Basic
import Typings.Warning

/-!
# Sessions

What a compilation accumulates while it works: the symbols that it issued, the warnings that it
raised and the events that it reported.

## Main definitions

* `Session`: the state of a compilation.
* `Work`: a computation that works on a session.
* `Work.symbol`: the symbol of an origin, issued if it is new.
* `Work.warn`, `Work.report`: raise a warning, report an event.
* `Work.during`: a computation whose events happen in a span.
-/

namespace Typings

/-- The state of a compilation. -/
structure Session where
  symbols : SymbolTable := {}
  warnings : List Warning := []
  events : List Event := []
  deriving Repr, Inhabited

/-- A computation that works on a session. -/
abbrev Work := StateM Session

namespace Work

/-- Reports an event. -/
def report (level : Level) (component : Component) (message : String) : Work Unit :=
  modify fun session =>
    { session with events := session.events ++ [{ level, component, message }] }

/-- Raises a warning and reports it. -/
def warn (warning : Warning) : Work Unit := do
  report .warn .warnings warning.shown
  modify fun session => { session with warnings := session.warnings ++ [warning] }

/-- The symbol of an origin. A new symbol is reported. -/
def symbol (origin : Origin) : Work Symbol := do
  let session ← get
  let (symbol, symbols) := session.symbols.intern origin
  if session.symbols.size < symbols.size then
    report .trace .symbols
      ("allocated symbol Symbol(" ++ toString symbol.id ++ ") for " ++ origin.temporaryName)
  modify fun session => { session with symbols }
  pure symbol

def entitySymbol (name : String) (suffix : String := "") : Work Symbol :=
  symbol (.entity name suffix)

/-- The symbol of a generated declaration. -/
def syntheticSymbol (name : String) : Work Symbol :=
  symbol (.synthetic name)

/-- The symbol with the same origin as another one and a longer suffix. -/
def suffixedSymbol (base : Symbol) (suffix : String) : Work Symbol := do
  symbol ((← get).symbols.suffixedOrigin base suffix)

/-- Runs a computation; the events that it reports happened in the span. -/
def during {α : Type} (span : Span) (work : Work α) : Work α := do
  -- the events so far are set aside: they happened outside of the span
  let before := (← get).events
  modify fun session => { session with events := [] }
  let result ← work
  modify fun session =>
    { session with events := before ++ session.events.map (·.within span) }
  pure result

end Work

end Typings
