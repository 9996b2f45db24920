import Typings.CompileError
import Typings.Model.OfGraph
import Typings.Model.OptionalForms
import Typings.Model.Order
import Typings.Service.Declarations

/-!
# Compilation

## Main definitions

* `Compiled`: the declarations of a graph in their final order, with their names.
* `Model.settled`: every change between building and naming.
* `compileWith`, `compile`: compile a graph with a given mapper, with the built-in one.
-/

namespace Typings

/-- Compiled declarations. -/
structure Compiled where
  model : OrderedModel
  names : Names
  /-- The problems on the way. -/
  warnings : List Warning
  deriving Repr, Inhabited

/-- The name of a date mapping in log lines. -/
def DateMapping.shown : DateMapping → String
  | unmodified => "Unmodified"
  | asNumber => "AsNumber"
  | asString => "AsString"

/-- The name of an enum mapping in log lines. -/
def EnumMapping.shown : EnumMapping → String
  | literalUnion => "LiteralUnion"
  | inlinedLiteralUnion => "InlinedLiteralUnion"
  | numericPlaceholder => "NumericPlaceholder"
  | unmodified => "Unmodified"

namespace Model

/-- Settles which declaration holds which property. -/
def reconcile (model : Model) : Work Model := do
  model.restatedNames.forM fun name =>
    Work.report .trace .inheritance ("removing inherited property '" ++ name ++ "'")
  let model := model.withoutRestated.withImplemented
  Work.report .debug .compilation "inheritance passes done"
  pure model

/-- Chooses the representations of dates and enums. -/
def represent (settings : Settings) (model : Model) : Work Model := do
  let model ← model.representDates settings.dateMapping fun _ => true
  let model := model.representEnums settings.enumMapping
  Work.report .debug .compilation
    ("representations chosen: dates " ++ settings.dateMapping.shown ++ ", enums " ++
      settings.enumMapping.shown)
  pure model

/-- Declares tagged unions, if they are wanted. -/
def unite (settings : Settings) (model : Model) : Work Model :=
  if settings.taggedUnions then model.declareUnions else pure model

/-- Makes classes revivable, if it is wanted. -/
def revive (settings : Settings) (model : Model) : Model :=
  if settings.deserializationFunctions then model.withRevival else model

/-- Adds the declarations for the application, if there is one. -/
def serve (settings : Settings) (mapper : Mapper) (rest : Option Application) (model : Model) :
    Work Model :=
  match rest with
  | some application => model.withServices application settings mapper
  | none => pure model

/-- A model built of a graph, with every later change made. -/
def settled (settings : Settings) (mapper : Mapper) (rest : Option Application) (model : Model) :
    Work Model := do
  let model ← model.reconcile
  let model ← model.represent settings
  let model ← model.unite settings
  -- services come last: their types refer to what is declared by now
  let model ← (model.revive settings).serve settings mapper rest
  Work.report .debug .compilation
    ("model has " ++ toString model.data.length ++ " data, " ++ toString model.aliases.length ++
      " alias and " ++ toString model.enums.length ++ " enum declarations")
  pure (model.withOptionalForm settings.optionalProperties)

end Model

def failOn {α : Type} (conflict : NameConflict) (what : String) : ExceptT CompileError Work α := do
  Work.report .error .symbols (what ++ String.intercalate ", " conflict.owners)
  throw (.nameConflict conflict)

/-- The final names of the issued symbols. -/
def resolveNames (policy : NamingPolicy) : ExceptT CompileError Work Names := do
  match (← get).symbols.resolve policy with
  | .error conflict =>
    failOn conflict ("Multiple entities are mapped to '" ++ conflict.name ++ "' name: ")
  | .ok names =>
    Work.report .debug .symbols ("resolved " ++ toString names.names.length ++ " symbol names")
    pure names

/-- Fails if two declarations share a name. -/
def requireUnique (names : Names) (model : OrderedModel) : ExceptT CompileError Work Unit := do
  match names.conflict? (model.declarations.map (·.symbol)) with
  | some conflict =>
    failOn conflict ("Multiple declarations are named '" ++ conflict.name ++ "': ")
  | none => pure ()

/-- Names a finished model and puts it in order. -/
def finish (settings : Settings) (model : Model) : ExceptT CompileError Work Compiled := do
  let names ← resolveNames settings.naming
  Work.report .debug .ordering
    ("ordered " ++ toString model.data.length ++ " data declarations parent-first")
  let ordered := model.order names settings.sortMode
  requireUnique names ordered
  let warnings := (← get).warnings
  if !warnings.isEmpty then
    Work.report .info .compilation
      ("compiled with " ++ toString warnings.length ++ " warning(s)")
  pure { model := ordered, names, warnings }

/-- The steps of a compilation. -/
def compileSteps (builder : Builder) : ExceptT CompileError Work Compiled := do
  match builder.settings.fault? with
  | some fault => throw (.invalidSettings fault)
  | none =>
    let model ← builder.model
    let model ← model.settled builder.settings builder.mapper builder.graph.rest
    finish builder.settings model

/-- Compiles a graph with a given mapper. The session holds what was reported. -/
def compileWith (mapper : Mapper) (graph : SourceGraph) (settings : Settings) :
    Except CompileError Compiled × Session :=
  let builder : Builder := { graph, settings, mapper }
  (Work.during ⟨"compile_with", builder.measures⟩ (compileSteps builder)).run {}

/-- Compiles a graph with the built-in mapper. The session holds what was reported. -/
def runCompile (graph : SourceGraph) (settings : Settings) :
    Except CompileError Compiled × Session :=
  compileWith (.builtIn settings graph) graph settings

/-- Compiles a graph with the built-in mapper. -/
def compile (graph : SourceGraph) (settings : Settings) : Except CompileError Compiled :=
  (runCompile graph settings).1

end Typings
