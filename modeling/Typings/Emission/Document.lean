import Typings.Emission.DeclarationText
import Typings.Emission.HelperText
import Typings.Emission.Options
import Typings.Log
import Typings.Symbol.Names

/-!
# Documents of declarations

## Main definitions

* `runsFrom`, `spaceRuns`: the declarations cut where the namespace changes.
* `EmitError`: why a document cannot be written.
* `emit`: the text of a model.
-/

namespace Typings

open Emission

/-- Why a document cannot be written. -/
inductive EmitError where
  /-- A symbol has no name. -/
  | unresolvedSymbol (symbol : Symbol)
  deriving Repr, DecidableEq, Inhabited

/-- The wording of an error. -/
def EmitError.message : EmitError → String
  | unresolvedSymbol symbol => "Unresolved symbol: Symbol(" ++ toString symbol.id ++ ")"

namespace Emission

/-- The namespace of a declaration. -/
def spaceOf (names : Names) (d : Declaration) : Option String :=
  (names.name? d.symbol).bind (·.space)

/-- The runs of declarations from a position on, each with its namespace. The namespace of a
declaration stands at its position in a list of namespaces. A run ends where the namespace is
another one, and the next run starts there. -/
def runsFrom (declarations : List Declaration) (spaces : List (Option String))
    (paired : spaces.length = declarations.length) (start : Nat) :
    List (Option String × List Declaration) :=
  if h : start < declarations.length then
    let space := spaces.get ⟨start, paired ▸ h⟩
    let stop := start + ((spaces.drop start).takeWhile (· == space)).length
    (space, declarations.extract start stop) :: runsFrom declarations spaces paired stop
  else []
termination_by declarations.length - start
decreasing_by
  have hspace : spaces.drop start = spaces.get ⟨start, paired ▸ h⟩ :: spaces.drop (start + 1) :=
    List.drop_eq_getElem_cons _
  rw [hspace, List.takeWhile_cons, if_pos (beq_self_eq_true _), List.length_cons]
  omega

/-- The declarations cut where the namespace changes. -/
def spaceRuns (names : Names) (declarations : List Declaration) :
    List (Option String × List Declaration) :=
  runsFrom declarations (declarations.map (spaceOf names)) (List.length_map _) 0

/-- The printer for a document. -/
def printer (options : EmitOptions) (names : Names) : Printer :=
  { indent := options.indent
    name := fun symbol => (names.fullName? symbol).getD ""
    simpleName := fun symbol => ((names.name? symbol).map (·.simple)).getD "" }

/-- The lines of declarations that share a namespace. -/
def runLines (options : EmitOptions) (names : Names) :
    Option String × List Declaration → List String
  | (some space, run) =>
    [exportText options.exportDeclarations ++ "namespace " ++ space ++ " \x7b", ""] ++
      run.flatMap ((printer options names).declaration 1 true) ++ ["\x7d", ""]
  | (none, run) => run.flatMap ((printer options names).declaration 0 options.exportDeclarations)

/-- The comment at the top of a document. -/
def fileCommentLines (options : EmitOptions) : List String :=
  match options.fileComment with
  | some text => ["/* " ++ commentText text ++ " */", ""]
  | none => []

def documentLines (options : EmitOptions) (names : Names) (model : OrderedModel) : List String :=
  fileCommentLines options ++
    (spaceRuns names model.declarations).flatMap (runLines options names) ++
    model.helpers.flatMap fun helper => helper.lines ++ [""]

/-- The text of a document, which ends with one line feed. -/
def documentText (options : EmitOptions) (names : Names) (model : OrderedModel) : String :=
  let text := String.join ((documentLines options names model).map (· ++ "\n"))
  Text.trimEnd text ++ "\n"

/-- The symbols whose names are needed, those of the declarations first. -/
def neededSymbols (model : OrderedModel) : List Symbol :=
  model.declarations.map (·.symbol) ++ model.declarations.flatMap (·.symbols)

end Emission

/-- The text of a model. -/
def emit (options : EmitOptions) (names : Names) (model : OrderedModel) : Except EmitError String :=
  match (neededSymbols model).find? fun symbol => (names.name? symbol).isNone with
  | some symbol => .error (.unresolvedSymbol symbol)
  | none => .ok (documentText options names model)

/-- What is reported while the text of a model is made. -/
def emitEvents (options : EmitOptions) (names : Names) (model : OrderedModel) : List Event :=
  match emit options names model with
  | .error _ => []
  | .ok text =>
    [{ level := .debug
       component := .emission
       message := "emitted " ++ toString text.utf8ByteSize ++ " bytes"
       spans := [⟨"generate", [("declarations", model.declarations.length)]⟩] }]

end Typings
