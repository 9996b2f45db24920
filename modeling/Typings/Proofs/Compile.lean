import Mathlib
import Typings.Proofs.Compilation

/-!
# Successful compilations

## Main definitions

* `Builder.earlyRun`, `Builder.unitedRun`, `Builder.servedRun`, `Builder.lateRun`: the runs up to
  the built model, to the declared unions, to the added services and to the end.

## Main results

* `exists_fst_finish`, `fst_compileWith`: what a model and a graph lead to, errors included.
* `exists_compilation`: a graph that compiles has a compilation, and its output is the final model
  in order.
* `exists_compile_gift`: a graph that compiles, with most of what a graph can have.
-/

namespace Typings

open Work

/-! ## Work that may fail -/

section Finish

variable {α β : Type} {s : Session}

theorem run_lift_bind (work : Work α) (next : α → ExceptT CompileError Work β) :
    ((work : ExceptT CompileError Work α) >>= next).run.run s =
      (next (work.run s).1).run.run (work.run s).2 := rfl

/-- A step that succeeds is followed by the rest. -/
theorem run_bind_of_ok {work : ExceptT CompileError Work α} {a : α} (h : (work.run.run s).1 = .ok a)
    (next : α → ExceptT CompileError Work β) :
    (work >>= next).run.run s = (next a).run.run (work.run.run s).2 := by
  have hrun : (work >>= next).run.run s =
      (ExceptT.bindCont next (work.run.run s).1).run (work.run.run s).2 := rfl
  rw [hrun, h]
  rfl

/-- A step that fails ends the work. -/
theorem fst_bind_of_error {work : ExceptT CompileError Work α} {error : CompileError}
    (h : (work.run.run s).1 = .error error) (next : α → ExceptT CompileError Work β) :
    ((work >>= next).run.run s).1 = .error error := by
  have hrun : (work >>= next).run.run s =
      (ExceptT.bindCont next (work.run.run s).1).run (work.run.run s).2 := rfl
  rw [hrun, h]
  rfl

theorem fst_resolveNames (policy : NamingPolicy) :
    ((resolveNames policy).run.run s).1 = (s.symbols.resolve policy).mapError .nameConflict := by
  have hrun : (resolveNames policy).run.run s = _ := run_bind_of_ok (a := s) rfl _
  rw [hrun]
  cases s.symbols.resolve policy with
  | error conflict => rfl
  | ok names => rfl

theorem fst_requireUnique (names : Names) (model : OrderedModel) :
    ((requireUnique names model).run.run s).1 =
      match names.conflict? (model.declarations.map (·.symbol)) with
      | some conflict => .error (.nameConflict conflict)
      | none => .ok () := by
  unfold requireUnique
  cases names.conflict? (model.declarations.map (·.symbol)) with
  | some conflict => rfl
  | none => rfl

/-- A model is finished with the names of the session, unless two entities or two declarations share
one. -/
theorem exists_fst_finish (settings : Settings) (model : Model) :
    ∃ warnings, ((finish settings model).run.run s).1 =
      match s.symbols.resolve settings.naming with
      | .error conflict => .error (.nameConflict conflict)
      | .ok names =>
        match names.conflict? ((model.order names settings.sortMode).declarations.map
          (·.symbol)) with
        | some conflict => .error (.nameConflict conflict)
        | none => .ok ⟨model.order names settings.sortMode, names, warnings⟩ := by
  have hnames := fst_resolveNames (s := s) settings.naming
  unfold finish
  cases hresolve : s.symbols.resolve settings.naming with
  | error conflict =>
    rw [hresolve] at hnames
    exact ⟨[], fst_bind_of_error hnames _⟩
  | ok names =>
    rw [hresolve] at hnames
    rw [run_bind_of_ok hnames, run_bind_of_ok (a := ()) rfl]
    have hunique := fun s => fst_requireUnique (s := s) names (model.order names settings.sortMode)
    dsimp only
    split
    case h_1 conflict hconflict =>
      simp only [hconflict] at hunique
      exact ⟨[], fst_bind_of_error (hunique _) _⟩
    case h_2 hnone =>
      simp only [hnone] at hunique
      rw [run_bind_of_ok (hunique _), run_bind_of_ok rfl]
      split
      · exact ⟨_, rfl⟩
      · exact ⟨_, rfl⟩

/-- A finished model is the given one in order, with names that are unique. -/
theorem ok_finish {settings : Settings} {model : Model} {out : Compiled}
    (h : ((finish settings model).run.run s).1 = .ok out) :
    s.symbols.resolve settings.naming = .ok out.names ∧
      out.model = model.order out.names settings.sortMode ∧
      out.names.conflict? (out.model.declarations.map (·.symbol)) = none := by
  obtain ⟨warnings, hfinish⟩ := exists_fst_finish (s := s) settings model
  rw [hfinish] at h
  split at h
  case h_1 => exact nomatch h
  case h_2 names hresolve =>
    split at h
    case h_1 => exact nomatch h
    case h_2 hunique =>
      obtain rfl := Except.ok.inj h
      exact ⟨hresolve, rfl, hunique⟩

/-- A model can be finished if its names can be resolved and are unique. -/
theorem exists_finish {settings : Settings} {model : Model} {names : Names}
    (hresolve : s.symbols.resolve settings.naming = .ok names)
    (hunique : names.conflict?
      ((model.order names settings.sortMode).declarations.map (·.symbol)) = none) :
    ∃ out, ((finish settings model).run.run s).1 = .ok out := by
  obtain ⟨warnings, hfinish⟩ := exists_fst_finish (s := s) settings model
  rw [hfinish, hresolve]
  dsimp only
  rw [hunique]
  exact ⟨_, rfl⟩

end Finish

/-! ## Steps -/

/-- The steps from a built model to the one whose dates, enums and unions are settled. -/
def Model.uniting (settings : Settings) (model : Model) : Work Model := do
  let model ← model.reconcile
  let model ← model.represent settings
  model.unite settings

variable {settings : Settings}

theorem Model.yields_uniting {lo hi : SymbolTable} {model : Model} :
    Yields lo hi (model.uniting settings) fun united => ∃ dated,
      DatesRepresented hi settings.dateMapping (fun _ => true) model.withoutRestated.withImplemented
        dated ∧
      United lo hi settings (dated.representEnums settings.enumMapping) united := by
  have hreconcile : Yields lo hi model.reconcile (· = model.withoutRestated.withImplemented) :=
    .bind (.forM fun _ => yields_report _ _ _) fun _ =>
      .bind (yields_report _ _ _) fun _ => .pure fun _ _ => rfl
  have hrepresent : ∀ model : Model, Yields lo hi (model.represent settings) fun represented =>
      ∃ dated, DatesRepresented hi settings.dateMapping (fun _ => true) model dated ∧
        represented = dated.representEnums settings.enumMapping := fun model =>
    .bind yields_representDates fun dated =>
      .bind (yields_report _ _ _) fun _ => .pure fun _ hdated => ⟨dated, hdated, rfl⟩
  refine .bind hreconcile fun reconciled => .bind (hrepresent reconciled) fun represented =>
    yields_unite.mono ?_
  rintro united hunited ⟨dated, hdated, rfl⟩ rfl
  exact ⟨dated, hdated, hunited⟩

/-- What builds the declarations of a graph. -/
def SourceGraph.builder (graph : SourceGraph) (settings : Settings) : Builder :=
  { graph, settings, mapper := .builtIn settings graph }

/-- The run that builds the model of a graph. -/
def Builder.earlyRun (builder : Builder) : Model × Session :=
  (Work.during ⟨"build", builder.measures⟩ builder.declarations).run {}

/-- The run of the steps between building and naming. -/
def Builder.lateRun (builder : Builder) : Model × Session :=
  (builder.earlyRun.1.settled builder.settings builder.mapper builder.graph.rest).run
    builder.earlyRun.2

/-- The run of the steps up to the declared unions. -/
def Builder.unitedRun (builder : Builder) : Model × Session :=
  (builder.earlyRun.1.uniting builder.settings).run builder.earlyRun.2

/-- The run of the steps up to the added services. -/
def Builder.servedRun (builder : Builder) : Model × Session :=
  ((builder.unitedRun.1.revive builder.settings).serve builder.settings builder.mapper
    builder.graph.rest).run builder.unitedRun.2

/-- A compilation checks its settings, then its pulls, and finishes what the runs lead to. -/
theorem fst_compileWith (mapper : Mapper) (graph : SourceGraph) (settings : Settings) :
    (compileWith mapper graph settings).1 =
      match settings.fault? with
      | some fault => .error (.invalidSettings fault)
      | none =>
        match graph.pullCycle? with
        | some cycle => .error (.pullCycle cycle)
        | none =>
          ((finish settings (Builder.lateRun { graph, settings, mapper }).1).run.run
            (Builder.lateRun { graph, settings, mapper }).2).1 := by
  have hsteps : (compileWith mapper graph settings).1 =
      ((compileSteps { graph, settings, mapper }).run.run {}).1 := rfl
  rw [hsteps]
  unfold compileSteps
  cases hfault : settings.fault? with
  | some fault => rfl
  | none =>
    cases hcycle : graph.pullCycle? with
    | some cycle =>
      have hmodel : Builder.model { graph, settings, mapper } = throw (.pullCycle cycle) := by
        simp only [Builder.model, hcycle]
      dsimp only
      rw [hmodel]
      rfl
    | none =>
      have hmodel : Builder.model { graph, settings, mapper } =
          (Work.during ⟨"build", Builder.measures { graph, settings, mapper }⟩
            (Builder.declarations { graph, settings, mapper }) : Work Model) := by
        simp only [Builder.model, hcycle]
        rfl
      dsimp only
      rw [hmodel, run_lift_bind, run_lift_bind]
      unfold Builder.lateRun Builder.earlyRun
      rfl

/-- A compilation succeeds if its settings and its graph are sound and it can finish what these runs
lead to. -/
theorem compileWith_eq_ok_iff {mapper : Mapper} {graph : SourceGraph} {out : Compiled} :
    (compileWith mapper graph settings).1 = .ok out ↔
      settings.fault? = none ∧ graph.pullCycle? = none ∧
        ((finish settings (Builder.lateRun { graph, settings, mapper }).1).run.run
          (Builder.lateRun { graph, settings, mapper }).2).1 = .ok out := by
  rw [fst_compileWith]
  cases settings.fault? with
  | some fault => exact iff_of_false nofun fun h => nomatch h.1
  | none =>
    cases graph.pullCycle? with
    | some cycle => exact iff_of_false nofun fun h => nomatch h.2.1
    | none => exact ⟨fun h => ⟨rfl, rfl, h⟩, fun h => h.2.2⟩

/-- The runs of a compilation lead through a sequence of models. The last step gives optional
properties their form, which needs no symbols. -/
theorem Builder.exists_stages (builder : Builder) :
    ∃ c : Compilation builder, c.early = builder.earlyRun.2.symbols ∧
      c.table = builder.lateRun.2.symbols ∧ c.built = builder.earlyRun.1 ∧
      c.united = builder.unitedRun.1 ∧ c.served = builder.servedRun.1 ∧
      c.final = builder.lateRun.1 := by
  let early := builder.earlyRun.2.symbols
  let table := builder.lateRun.2.symbols
  have hbuild :
      ∀ lo hi, Yields lo hi (Work.during ⟨"build", builder.measures⟩ builder.declarations) _ :=
    fun _ _ => yields_during _ Builder.yields_declarations
  have hunite : Yields early table (builder.earlyRun.1.uniting builder.settings) _ :=
    Model.yields_uniting
  have hserve : Yields builder.unitedRun.2.symbols table ((builder.unitedRun.1.revive
      builder.settings).serve builder.settings builder.mapper builder.graph.rest) _ :=
    Model.yields_serve
  have hserves : builder.unitedRun.2.symbols ≤ table := hserve.grows _
  have hgrows : early ≤ table := le_trans (hunite.grows _) hserves
  obtain ⟨hbuilds, -⟩ := (hbuild {} table).holds List.nil_prefix hgrows
  obtain ⟨-, hissued⟩ := (hbuild {} early).holds List.nil_prefix (le_refl _)
  obtain ⟨dated, hdated, hunited⟩ := hunite.holds (le_refl _) hserves
  have hserved := hserve.holds (le_refl _) (le_refl _)
  have hissued' : ∀ name ∈ builder.graph.declaredNames,
      early.find? (.entity name "") = some (table.symbolOf name) := by
    intro name hname
    rw [SymbolTable.symbolOf_eq (SymbolTable.find?_mono hgrows (hissued name hname))]
    exact hissued name hname
  exact ⟨⟨early, table, _, dated, _, _, hgrows, hbuilds, hissued', hdated, hunited, hserved⟩,
    rfl, rfl, rfl, rfl, rfl, rfl⟩

theorem Builder.exists_compilation (builder : Builder) :
    ∃ c : Compilation builder, c.early = builder.earlyRun.2.symbols ∧
      c.table = builder.lateRun.2.symbols ∧ c.built = builder.earlyRun.1 ∧
      c.final = builder.lateRun.1 := by
  obtain ⟨c, hearly, htable, hbuilt, -, -, hfinal⟩ := builder.exists_stages
  exact ⟨c, hearly, htable, hbuilt, hfinal⟩

/-- A graph that compiles has a compilation, and its output is the final model in order. -/
theorem exists_compilation {mapper : Mapper} {graph : SourceGraph} {out : Compiled}
    (h : (compileWith mapper graph settings).1 = .ok out) :
    ∃ c : Compilation { graph, settings, mapper },
      c.table.resolve settings.naming = .ok out.names ∧
      out.model = c.final.order out.names settings.sortMode ∧
      out.names.conflict? (out.model.declarations.map (·.symbol)) = none := by
  obtain ⟨-, -, hfinish⟩ := compileWith_eq_ok_iff.mp h
  obtain ⟨c, -, htable, -, hfinal⟩ := Builder.exists_compilation { graph, settings, mapper }
  refine ⟨c, ?_⟩
  rw [htable, hfinal]
  exact ok_finish hfinish

/-! ## A graph that compiles -/

/-- A generic class that keeps dates, a class below it that an endpoint belongs to, and an enum. -/
def giftGraph : SourceGraph where
  classes :=
    [{ name := "Box"
       typeParameters := ["T"]
       properties :=
        [{ name := "content", type := .var "T" }, { name := "made", type := .named "Date" [] }] },
      { name := "Gift", parent := some (.named "Box" [.named "Date" []]) }]
  enums := [{ name := "Color", members := [{ name := "Red" }] }]
  rest := some
    { methods := [{ name := "find", httpMethod := "GET", path := "gifts", resource := "Gift" }] }

/-- Settings for classes that can be revived, with dates as texts and an interface per resource. -/
def giftSettings : Settings where
  classMapping := .asClasses
  deserializationFunctions := true
  dateMapping := .asString
  restCodegen := .surfaceOnly
  restGrouping := .perResource
  knownTypes :=
    { strings := [], numbers := [], booleans := [], dates := ["Date"], voids := [], any := [],
      sequences := [], maps := [], optionals := [], wrappers := [] }

theorem toOption_eq_some_iff {ε α : Type} {result : Except ε α} {a : α} :
    result.toOption = some a ↔ result = .ok a := by
  cases result with
  | error e => exact iff_of_false nofun nofun
  | ok b =>
    exact ⟨fun h => congrArg _ (Option.some.inj h), fun h => congrArg _ (Except.ok.inj h)⟩

theorem exists_ok_of_isSome {ε α : Type} {result : Except ε α} (h : result.toOption.isSome = true) :
    ∃ a, result = .ok a := by
  obtain ⟨a, ha⟩ := Option.isSome_iff_exists.mp h
  exact ⟨a, toOption_eq_some_iff.mp ha⟩

theorem exists_compile_gift : ∃ out, compile giftGraph giftSettings = .ok out :=
  exists_ok_of_isSome (by cbv)

end Typings
