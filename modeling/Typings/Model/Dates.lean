import Typings.Model.Basic
import Typings.Session
import Typings.Settings.Basic

/-!
# Representation of dates

Dates are mapped to a placeholder first. Unless it is kept, the placeholder is replaced by an alias,
whose symbol is issued where the first date is replaced.

## Main definitions

* `DateMapping.alias?`: the name and the definition of the alias.
* `Model.mapDataTypesM`: a traversal of the types of the selected declarations.
* `Model.representDates`: the model with the dates represented.
-/

namespace Typings

/-! ## Traversals -/

section Traversals

variable {m : Type → Type} [Monad m] (f : TypeExpr → m TypeExpr)

namespace TypeExpr

mutual

/-- Rebuilds an expression: first its parts from left to right, then `f` runs on the rebuilt
expression. -/
def transformM : TypeExpr → m TypeExpr
  | reference symbol args => do f (reference symbol (← transformAllM args))
  | union members => do f (union (← transformAllM members))
  | intersection members => do f (intersection (← transformAllM members))
  | optional inner => do f (optional (← inner.transformM))
  | array element => do f (array (← element.transformM))
  | indexed key value => do f (indexed (← key.transformM) (← value.transformM))
  | shape fields => do f (shape (← transformFieldsM fields))
  | function params result => do f (function (← transformFieldsM params) (← result.transformM))
  | literal value => f (literal value)
  | var name => f (var name)
  | primitive kind => f (primitive kind)
  | verbatim text => f (verbatim text)
  | any => f any

/-- Rebuilds every type of a list. -/
def transformAllM : List TypeExpr → m (List TypeExpr)
  | [] => pure []
  | t :: rest => do pure ((← t.transformM) :: (← transformAllM rest))

/-- Rebuilds the type of every field. -/
def transformFieldsM : List (String × TypeExpr) → m (List (String × TypeExpr))
  | [] => pure []
  | (name, t) :: rest => do pure ((name, ← t.transformM) :: (← transformFieldsM rest))

end

end TypeExpr

/-- Changes the types of properties, of method parameters and results, and of constructor
parameters. -/
def DataDeclaration.mapTypesM (d : DataDeclaration) : m DataDeclaration := do
  let properties ← d.properties.mapM fun p => do pure { p with type := ← f p.type }
  let methods ← d.methods.mapM fun method => do
    let parameters ← method.parameters.mapM fun p => do pure { p with type := ← f p.type }
    pure { method with parameters, result := ← f method.result }
  let ctor ← d.ctor.mapM fun c => do
    let parameters ← c.parameters.mapM fun p => do pure { p with type := ← f p.type }
    pure { c with parameters }
  pure { d with properties, methods, ctor }

/-- Changes the types of the selected interfaces and classes. -/
def Model.mapDataTypesM (model : Model) (selects : DataDeclaration → Bool) : m Model := do
  let data ← model.data.mapM fun d => if selects d then d.mapTypesM f else pure d
  pure { model with data }

end Traversals

/-! ## Dates -/

/-- The name and the definition of the alias that stands for dates. -/
def DateMapping.alias? : DateMapping → Option (String × TypeExpr)
  | unmodified => none
  | asNumber => some ("DateAsNumber", .number)
  | asString => some ("DateAsString", .string)

/-- A computation that replaces dates. It knows the symbol of the alias, if it was issued, and how
many dates were replaced. -/
abbrev DateWork := StateT (Option Symbol × Nat) Work

namespace DateWork

/-- The symbol of the alias, issued if it is not known. -/
def aliasSymbol (name : String) : Option Symbol → Work Symbol
  | some symbol => pure symbol
  | none => Work.syntheticSymbol name

/-- Replaces a date by the alias. -/
def replace (name : String) (t : TypeExpr) : DateWork TypeExpr := do
  if t.isTemporal then
    let (alias?, count) ← get
    let symbol ← aliasSymbol name alias?
    set (some symbol, count + 1)
    pure (.bare symbol)
  else pure t

end DateWork

def Model.representDates (mapping : DateMapping) (selects : DataDeclaration → Bool)
    (model : Model) : Work Model := do
  match mapping.alias? with
  | none => pure model
  | some (name, definition) =>
    let (model, alias?, count) ←
      (model.mapDataTypesM (·.transformM (DateWork.replace name)) selects).run (none, 0)
    match alias? with
    | none => pure model
    | some symbol =>
      if (model.findAlias? symbol).isSome then pure model
      else
        Work.report .debug .dates
          ("declaring " ++ name ++ " for " ++ toString count ++ " date occurrence(s)")
        pure { model with aliases := model.aliases ++ [{ symbol, definition }] }

end Typings
