import Typings.Emission.Document
import Typings.Proofs.Renaming.Code

/-!
# Renaming symbols in declarations

## Main definitions

* `DataDeclaration.rename`, `AliasDeclaration.rename`, `EnumDeclaration.rename`: declarations with
  their symbols renamed.
* `OrderedModel.rename`: the declarations of a document with their symbols renamed.

## Main results

* `documentText_rename`: a renamed document has the same text, if renamed symbols have the same
  names.
-/

namespace Typings

/-! ## Members -/

section Members

variable (f : Symbol → Symbol)

/-- The property with the symbols of its type renamed. -/
def Property.rename (p : Property) : Property :=
  { p with type := p.type.rename f }

/-- The parameter with the symbols of its type renamed. -/
def Parameter.rename (p : Parameter) : Parameter :=
  { p with type := p.type.rename f }

/-- The parameter of a constructor with the symbols of its type renamed. -/
def ConstructorParameter.rename (p : ConstructorParameter) : ConstructorParameter :=
  { p with type := p.type.rename f }

def Constructor.rename (c : Constructor) : Constructor where
  parameters := c.parameters.map (·.rename f)
  body := c.body.map (Statement.rename f)

def Method.rename (m : Method) : Method :=
  { m with
    parameters := m.parameters.map (·.rename f)
    result := m.result.rename f
    body := m.body.map (·.map (Statement.rename f)) }

end Members

/-! ## Declarations -/

section Declarations

variable (f : Symbol → Symbol)

/-- The interface or class with its symbols renamed. -/
def DataDeclaration.rename (d : DataDeclaration) : DataDeclaration :=
  { d with
    symbol := f d.symbol
    parent := d.parent.map (TypeExpr.rename f)
    interfaces := d.interfaces.map (TypeExpr.rename f)
    properties := d.properties.map (Property.rename f)
    ctor := d.ctor.map (Constructor.rename f)
    methods := d.methods.map (Method.rename f)
    unionAlias := d.unionAlias.map f }

def AliasDeclaration.rename (a : AliasDeclaration) : AliasDeclaration :=
  { a with
    symbol := f a.symbol
    definition := a.definition.rename f }

def EnumDeclaration.rename (e : EnumDeclaration) : EnumDeclaration :=
  { e with symbol := f e.symbol }

def Declaration.rename : Declaration → Declaration
  | ofData d => ofData (d.rename f)
  | ofAlias a => ofAlias (a.rename f)
  | ofEnum e => ofEnum (e.rename f)

/-- The declarations of a document with their symbols renamed. -/
def OrderedModel.rename (model : OrderedModel) : OrderedModel :=
  { model with declarations := model.declarations.map (Declaration.rename f) }

end Declarations

variable {f : Symbol → Symbol}

@[simp] theorem Declaration.symbol_rename (d : Declaration) : (d.rename f).symbol = f d.symbol := by
  cases d <;> rfl

theorem OrderedModel.symbols_rename (model : OrderedModel) :
    (model.rename f).declarations.map (·.symbol) = (model.declarations.map (·.symbol)).map f := by
  simp only [rename, List.map_map, Function.comp_def, Declaration.symbol_rename]

@[simp] theorem DataDeclaration.supertypes_rename (d : DataDeclaration) :
    (d.rename f).supertypes = d.supertypes.map (TypeExpr.rename f) := by
  rw [supertypes, supertypes, List.map_append]
  cases hparent : d.parent <;> simp [rename, hparent]

/-! ## Text -/

namespace Printer

variable (printer : Printer)

theorem property_rename (level : Nat) (p : Property) :
    printer.property level (p.rename f) = (printer.through f).property level p := by
  simp only [property, Property.rename, TypeExpr.labelled_rename]
  rfl

theorem constructor_rename (level : Nat) (c : Constructor) :
    printer.constructor level (c.rename f) = (printer.through f).constructor level c := by
  simp only [constructor, Constructor.rename, ConstructorParameter.rename, List.map_map,
    Function.comp_def, TypeExpr.labelled_rename, statements_rename]
  rfl

theorem signature_rename (m : Method) :
    printer.signature (m.rename f) = (printer.through f).signature m := by
  simp only [signature, Method.rename, Parameter.rename, List.map_map, Function.comp_def,
    TypeExpr.labelled_rename, TypeExpr.text_rename]
  rfl

theorem method_rename (level : Nat) (inClass : Bool) (m : Method) :
    printer.method level inClass (m.rename f) = (printer.through f).method level inClass m := by
  have hsignature := printer.signature_rename (f := f) m
  obtain ⟨name, modifiers, typeParameters, parameters, result, body, comments⟩ := m
  cases body with
  | none => cases inClass <;> simp only [method, hsignature] <;> rfl
  | some body =>
    cases inClass with
    | false => simp only [method, hsignature]; rfl
    | true =>
      simp only [method, hsignature]
      simp only [Method.rename, Option.map_some, statements_rename]
      rfl

theorem clause_rename (keyword : String) (types : List TypeExpr) :
    printer.clause keyword (types.map (TypeExpr.rename f)) =
      (printer.through f).clause keyword types := by
  rw [clause, clause, List.isEmpty_map, TypeExpr.listText_rename]
  rfl

theorem header_rename (exported : Bool) (d : DataDeclaration) :
    printer.header exported (d.rename f) = (printer.through f).header exported d := by
  have hparent : (d.rename f).parent.toList = d.parent.toList.map (TypeExpr.rename f) := by
    cases hparent : d.parent <;> simp [DataDeclaration.rename, hparent]
  have hinterfaces : (d.rename f).interfaces = d.interfaces.map (TypeExpr.rename f) := rfl
  rw [header, header, hparent, hinterfaces, DataDeclaration.supertypes_rename, clause_rename,
    clause_rename, clause_rename]
  rfl

theorem members_rename (level : Nat) (d : DataDeclaration) :
    printer.members level (d.rename f) = (printer.through f).members level d := by
  have hctor : (d.rename f).ctor.toList.map (printer.constructor level) =
      d.ctor.toList.map ((printer.through f).constructor level) := by
    cases hctor : d.ctor <;> simp [DataDeclaration.rename, hctor, constructor_rename]
  have hmethods : (d.rename f).methods.map (printer.method level d.isClass) =
      d.methods.map ((printer.through f).method level d.isClass) := by
    simp only [DataDeclaration.rename, List.map_map, Function.comp_def, method_rename]
  rw [members, members, hctor, ← hmethods]
  rfl

theorem data_rename (level : Nat) (exported : Bool) (d : DataDeclaration) :
    printer.data level exported (d.rename f) = (printer.through f).data level exported d := by
  have hproperties : (d.rename f).properties.flatMap (printer.property (level + 1)) =
      d.properties.flatMap ((printer.through f).property (level + 1)) := by
    simp only [DataDeclaration.rename, List.flatMap_map, property_rename]
  have hempty : (d.rename f).properties.isEmpty = d.properties.isEmpty := List.isEmpty_map
  rw [data, data, hproperties, hempty, header_rename, members_rename]
  rfl

/-- A renamed declaration is written like the original one with names looked up through the
renaming. -/
theorem declaration_rename (level : Nat) (exported : Bool) (d : Declaration) :
    printer.declaration level exported (d.rename f) =
      (printer.through f).declaration level exported d := by
  cases d with
  | ofData d => exact congrArg (· ++ [""]) (printer.data_rename level exported d)
  | ofAlias a =>
    simp only [declaration, Declaration.rename, typeAlias, AliasDeclaration.rename,
      TypeExpr.text_rename]
    rfl
  | ofEnum e => rfl

end Printer

/-! ## Documents -/

/-- Where the runs end depends on the namespaces only. -/
theorem Emission.runsFrom_map (g : Declaration → Declaration) (ds : List Declaration)
    (spaces : List (Option String)) (paired : spaces.length = ds.length) (start : Nat) :
    runsFrom (ds.map g) spaces (paired.trans (List.length_map g).symm) start =
      (runsFrom ds spaces paired start).map (Prod.map id (List.map g)) := by
  fun_induction runsFrom ds spaces paired start with
  | case1 start h space stop ih =>
    have hrun : (ds.map g).extract start stop = (ds.extract start stop).map g := by
      simp only [List.extract_eq_take_drop, List.map_take, List.map_drop]
    rw [List.map_cons, ← ih, Prod.map, ← hrun, runsFrom, dif_pos (by rwa [List.length_map])]
    rfl
  | case2 start h =>
    rw [runsFrom, dif_neg (by rwa [List.length_map])]
    rfl

section Document

open Emission

variable {names names' : Names} (hnames : ∀ s, names'.name? (f s) = names.name? s)

include hnames

theorem Names.fullName?_rename (s : Symbol) : names'.fullName? (f s) = names.fullName? s := by
  rw [fullName?, hnames, fullName?]

theorem printer_through (options : EmitOptions) :
    (printer options names').through f = printer options names := by
  simp only [Printer.through, printer, Function.comp_def, Names.fullName?_rename hnames, hnames]

theorem spaceOf_rename (d : Declaration) : spaceOf names' (d.rename f) = spaceOf names d := by
  rw [spaceOf, spaceOf, Declaration.symbol_rename, hnames]

theorem runLines_rename (options : EmitOptions) (run : Option String × List Declaration) :
    runLines options names' (run.map id (List.map (Declaration.rename f))) =
      runLines options names run := by
  obtain ⟨space, run⟩ := run
  cases space
  all_goals
    simp only [Prod.map, id, runLines, List.flatMap_map, Printer.declaration_rename,
      printer_through hnames]

/-- A document with its symbols renamed has the same text, if renamed symbols have the names of the
original ones. -/
theorem documentText_rename (options : EmitOptions) (model : OrderedModel) :
    documentText options names' (model.rename f) = documentText options names model := by
  have hspaces : (model.declarations.map (Declaration.rename f)).map (spaceOf names') =
      model.declarations.map (spaceOf names) := by
    rw [List.map_map]
    exact List.map_congr_left fun d _ => spaceOf_rename hnames d
  have hruns : spaceRuns names' (model.rename f).declarations =
      (spaceRuns names model.declarations).map (Prod.map id (List.map (Declaration.rename f))) := by
    simp only [spaceRuns, OrderedModel.rename, hspaces]
    exact runsFrom_map _ _ _ _ _
  rw [documentText, documentText, documentLines, documentLines, hruns, List.flatMap_map]
  simp only [runLines_rename hnames]
  rfl

end Document

end Typings
