import Typings.Emission.CodeText
import Typings.Proofs.Renaming.Type

/-!
# Renaming symbols in code

## Main definitions

* `Expression.rename`, `Statement.rename`: code with the symbols of its types renamed.
* `Printer.through`: a printer that looks names up through a renaming.

## Main results

* `Expression.code_rename`, `Printer.statements_rename`: how renamed code is written.
-/

namespace Typings

variable (f : Symbol → Symbol)

namespace Expression

/-! ## Expressions -/

mutual

/-- The expression with the symbols of its types renamed. -/
def rename : Expression → Expression
  | identifier name => identifier name
  | typeName type => typeName (type.rename f)
  | self => self
  | super => super
  | undefined => undefined
  | text value => text value
  | member owner property => member owner.rename property
  | call callee types args => call callee.rename (types.map (TypeExpr.rename f)) (renameAll args)
  | create type args => create (type.rename f) (renameAll args)
  | or left right => or left.rename right.rename
  | not inner => not inner.rename
  | assign target value => assign target.rename value.rename
  | arrow params body =>
    arrow (params.map fun param => (param.1, param.2.map (TypeExpr.rename f))) body.rename
  | object entries => object (renameEntries entries)
  | template tag parts => template tag.rename (renameParts parts)
termination_by structural e => e

def renameAll : List Expression → List Expression
  | [] => []
  | e :: rest => e.rename :: renameAll rest

/-- The entries of an object with their symbols renamed. -/
def renameEntries : List (String × Option Expression) → List (String × Option Expression)
  | [] => []
  | (key, some value) :: rest => (key, some value.rename) :: renameEntries rest
  | (key, none) :: rest => (key, none) :: renameEntries rest

def renameParts : List TemplatePart → List TemplatePart
  | [] => []
  | .literal value :: rest => .literal value :: renameParts rest
  | .substitution value :: rest => .substitution value.rename :: renameParts rest

end

variable {f}

@[simp] theorem renameAll_eq_map (es : List Expression) : renameAll f es = es.map (rename f) := by
  induction es with
  | nil => rfl
  | cons e rest ih => simp [renameAll, ih]

@[simp] theorem renameEntries_eq_map (entries : List (String × Option Expression)) :
    renameEntries f entries = entries.map fun entry => (entry.1, entry.2.map (rename f)) := by
  induction entries with
  | nil => rfl
  | cons entry rest ih =>
    obtain ⟨key, value⟩ := entry
    cases value <;> simp [renameEntries, ih]

@[simp] theorem isCompound_rename (e : Expression) : (e.rename f).isCompound = e.isCompound := by
  cases e <;> rfl

@[simp] theorem isLooserThanOr_rename (e : Expression) :
    (e.rename f).isLooserThanOr = e.isLooserThanOr := by
  cases e <;> rfl

@[simp] theorem isObject_rename (e : Expression) : (e.rename f).isObject = e.isObject := by
  cases e <;> rfl

@[simp] theorem isCallOf_rename (e : Expression) (function : String) :
    (e.rename f).isCallOf function = e.isCallOf function := by
  cases e with
  | call callee types args => cases callee <;> rfl
  | _ => rfl

section Text

variable (name : Symbol → String)

theorem typeNameText_rename (t : TypeExpr) :
    typeNameText name (t.rename f) = typeNameText (name ∘ f) t := by
  cases t with
  | reference s args => simp [typeNameText]
  | _ => exact TypeExpr.text_rename name _

theorem typeArguments_rename (ts : List TypeExpr) :
    typeArguments name (ts.map (TypeExpr.rename f)) = typeArguments (name ∘ f) ts := by
  rw [typeArguments, typeArguments, TypeExpr.listText_rename, List.isEmpty_map]

theorem arrowParameter_rename (param : String × Option TypeExpr) :
    arrowParameter name (param.1, param.2.map (TypeExpr.rename f)) =
      arrowParameter (name ∘ f) param := by
  obtain ⟨parameter, type⟩ := param
  cases type with
  | none => rfl
  | some type => simp only [Option.map_some, arrowParameter, TypeExpr.text_rename]

mutual

/-- A renamed expression is written like the original one with names looked up through the
renaming. -/
theorem code_rename : ∀ e : Expression, (e.rename f).code name = e.code (name ∘ f)
  | identifier _ | self | super | undefined | text _ => rfl
  | typeName type => typeNameText_rename name type
  | member owner _ => by rw [rename, code, code, isCompound_rename, code_rename owner]
  | call callee types args => by
    rw [rename, code, code, isCompound_rename, code_rename callee, typeArguments_rename,
      codes_rename args]
  | create type args => by rw [rename, code, code, TypeExpr.text_rename, codes_rename args]
  | or left right => by
    rw [rename, code, code, isLooserThanOr_rename, isLooserThanOr_rename, code_rename left,
      code_rename right]
  | not inner => by rw [rename, code, code, isCompound_rename, code_rename inner]
  | assign target value => by rw [rename, code, code, code_rename target, code_rename value]
  | arrow params body => by
    rw [rename, code, code, isObject_rename, code_rename body, List.map_map]
    congr 4
    exact List.map_congr_left fun param _ => arrowParameter_rename name param
  | object [] => rfl
  | object (entry :: entries) => by
    have htexts := entryTexts_rename (entry :: entries)
    rw [rename, code, ← htexts]
    rcases entry with ⟨key, _ | value⟩ <;> rfl
  | template tag parts => by
    rw [rename, code, code, isCompound_rename, code_rename tag, partsText_rename parts]

theorem codes_rename : ∀ es : List Expression, codes name (renameAll f es) = codes (name ∘ f) es
  | [] => rfl
  | e :: rest => by rw [renameAll, codes, codes, code_rename e, codes_rename rest]

theorem entryTexts_rename : ∀ entries : List (String × Option Expression),
    entryTexts name (renameEntries f entries) = entryTexts (name ∘ f) entries
  | [] => rfl
  | (_, some value) :: rest => by
    rw [renameEntries, entryTexts, entryTexts, code_rename value, entryTexts_rename rest]
  | (_, none) :: rest => by rw [renameEntries, entryTexts, entryTexts, entryTexts_rename rest]

theorem partsText_rename : ∀ parts : List TemplatePart,
    partsText name (renameParts f parts) = partsText (name ∘ f) parts
  | [] => rfl
  | .literal _ :: rest => by rw [renameParts, partsText, partsText, partsText_rename rest]
  | .substitution value :: rest => by
    rw [renameParts, partsText, partsText, code_rename value, partsText_rename rest]

end

end Text

end Expression

/-! ## Statements -/

namespace Statement

mutual

/-- The statement with the symbols of its types renamed. -/
def rename : Statement → Statement
  | returns value => returns (value.map (Expression.rename f))
  | when condition body => when (condition.rename f) (renameAll body)
  | constant name value => constant name (value.rename f)
  | perform value => perform (value.rename f)
  | switch discriminant cases => switch (discriminant.rename f) (renameCases cases)
termination_by structural st => st

def renameAll : List Statement → List Statement
  | [] => []
  | st :: rest => st.rename :: renameAll rest

/-- The cases of a switch with their symbols renamed. -/
def renameCases : List (Expression × List Statement) → List (Expression × List Statement)
  | [] => []
  | (test, body) :: rest => (test.rename f, renameAll body) :: renameCases rest

end

variable {f}

@[simp] theorem renameAll_eq_map (body : List Statement) :
    renameAll f body = body.map (rename f) := by
  induction body with
  | nil => rfl
  | cons st rest ih => simp [renameAll, ih]

@[simp] theorem renameCases_eq_map (cases : List (Expression × List Statement)) :
    renameCases f cases = cases.map fun c => (c.1.rename f, c.2.map (rename f)) := by
  induction cases with
  | nil => rfl
  | cons c rest ih => simp [renameCases, ih]

end Statement

namespace Printer

variable (printer : Printer)

/-- The printer that looks names up through a renaming. -/
def through : Printer where
  indent := printer.indent
  name := printer.name ∘ f
  simpleName := printer.simpleName ∘ f

variable {f}

mutual

theorem statement_rename (level : Nat) : ∀ st : Statement,
    printer.statement level (st.rename f) = (printer.through f).statement level st
  | .returns none => rfl
  | .returns (some value) => by
    rw [Statement.rename, Option.map_some, statement, statement, expression, Expression.code_rename]
    rfl
  | .when condition body => by
    rw [Statement.rename, statement, statement, expression, Expression.code_rename,
      statements_renameAll (level + 1) body]
    rfl
  | .constant _ value => by
    rw [Statement.rename, statement, statement, expression, Expression.code_rename]
    rfl
  | .perform value => by
    rw [Statement.rename, statement, statement, expression, Expression.code_rename]
    rfl
  | .switch discriminant cases => by
    rw [Statement.rename, statement, statement, expression, Expression.code_rename,
      switchCases_rename level cases]
    rfl

theorem statements_renameAll (level : Nat) : ∀ body : List Statement,
    printer.statements level (Statement.renameAll f body) =
      (printer.through f).statements level body
  | [] => rfl
  | st :: rest => by
    rw [Statement.renameAll, statements, statements, statement_rename level st,
      statements_renameAll level rest]

theorem switchCases_rename (level : Nat) : ∀ cases : List (Expression × List Statement),
    printer.switchCases level (Statement.renameCases f cases) =
      (printer.through f).switchCases level cases
  | [] => rfl
  | (test, body) :: rest => by
    rw [Statement.renameCases, switchCases, switchCases, expression, Expression.code_rename,
      statements_renameAll (level + 2) body, switchCases_rename level rest]
    rfl

end

/-- Renamed statements are written like the original ones with names looked up through the
renaming. -/
theorem statements_rename (level : Nat) (body : List Statement) :
    printer.statements level (body.map (Statement.rename f)) =
      (printer.through f).statements level body := by
  rw [← Statement.renameAll_eq_map, statements_renameAll]

end Printer

end Typings
