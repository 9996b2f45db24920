import Typings.Proofs.Model.Representation
import Typings.Proofs.Model.Retyping
import Typings.Proofs.Type.Replacement

/-!
# Representation of dates

Dates are replaced by references to an alias. Its symbol is issued when the first date is found, and
the alias is declared unless there is one with this symbol. So an alias is declared exactly if some
date was replaced, and since a symbol table keeps what it issued, further runs find the alias of
earlier ones.

## Main definitions

* `Model.HasDate`: a date occurs in the types of selected declarations.
* `Model.DatesReplaced`: a model has references to a symbol in place of dates.
* `AliasDeclaration.DeclaredIn`: a list of aliases is another one with an alias added if it was
  missing.
* `Model.RepresentsDates`: what a run does to a model and a session.
* `Model.DateAliasAdded`: a list of aliases got the one that stands for dates, or nothing.
* `Model.representDatesInTurn`: runs for one selection of declarations after the other.

## Main results

* `Model.yields_representDatesInTurn`: any number of runs declare one alias at most.
* `Model.representsDates`: what representing the dates of a model does to it and to the session.
-/

namespace Typings

/-- Whether the second type is the reference that stands for the first one, which is a date. -/
def StandsForDate (symbol : Symbol) (t u : TypeExpr) : Prop :=
  t = .temporal ∧ u = .bare symbol

/-- Whether a list of aliases declares a symbol: an alias is added at the end, unless there was one
with the same symbol. -/
inductive AliasDeclaration.DeclaredIn (a : AliasDeclaration) (aliases : List AliasDeclaration) :
    List AliasDeclaration → Prop where
  | known (h : ∃ b ∈ aliases, b.symbol = a.symbol) : DeclaredIn a aliases aliases
  | added (h : ∀ b ∈ aliases, b.symbol ≠ a.symbol) : DeclaredIn a aliases (aliases ++ [a])

theorem AliasDeclaration.DeclaredIn.exists_mem {a : AliasDeclaration}
    {aliases aliases' : List AliasDeclaration} (h : a.DeclaredIn aliases aliases') :
    ∃ b ∈ aliases', b.symbol = a.symbol := by
  cases h with
  | known hknown => exact hknown
  | added _ => exact ⟨a, List.mem_append_right _ List.mem_cons_self, rfl⟩

namespace Model

/-- Whether a date occurs, at any depth, in the types of the members of selected declarations. -/
def HasDate (model : Model) (selects : DataDeclaration → Bool) : Prop :=
  ∃ d ∈ model.data, selects d = true ∧ ∃ t ∈ d.types, .temporal ∈ t.nodes

/-- Whether the second model is the first one with references to a symbol in place of the dates of
selected declarations. Nothing else but the list of aliases is changed. -/
structure DatesReplaced (symbol : Symbol) (selects : DataDeclaration → Bool)
    (model model' : Model) : Prop where
  rest : model' = { model with data := model'.data, aliases := model'.aliases }
  retyped : List.Forall₂ (fun d d' => if selects d then
      d.Retyped (TypeExpr.ReplacedBy (StandsForDate symbol)) d' ∧ d'.unionAlias = d.unionAlias
    else d' = d) model.data model'.data

/-- Whether a run represents the dates of selected declarations: nothing is done if there are none.
Otherwise the symbol of the alias is issued, takes the place of dates, and is declared. -/
structure RepresentsDates (mapping : DateMapping) (selects : DataDeclaration → Bool) (model : Model)
    (session : Session) (run : Model × Session) : Prop where
  idle : ¬model.HasDate selects → run = (model, session)
  replaced : model.HasDate selects → ∃ name definition symbol,
    mapping.alias? = some (name, definition) ∧
    session.symbols.intern (.synthetic name) = (symbol, run.2.symbols) ∧
    DatesReplaced symbol selects model run.1 ∧
    AliasDeclaration.DeclaredIn { symbol, definition } model.aliases run.1.aliases ∧
    ∃ a ∈ run.1.aliases, a.symbol = symbol

/-- Whether a list of aliases is another one, or got the alias for dates at its end and had none
with its symbol. -/
def DateAliasAdded (mapping : DateMapping) (table : SymbolTable)
    (aliases aliases' : List AliasDeclaration) : Prop :=
  aliases' = aliases ∨ ∃ name definition symbol,
    mapping.alias? = some (name, definition) ∧ table.find? (.synthetic name) = some symbol ∧
    (∀ a ∈ aliases, a.symbol ≠ symbol) ∧
    aliases' = aliases ++ [({ symbol, definition } : AliasDeclaration)]

/-- Represents the dates of one selection of declarations after the other. -/
def representDatesInTurn (mapping : DateMapping) (selections : List (DataDeclaration → Bool))
    (model : Model) : Work Model :=
  selections.foldlM (fun model selects => model.representDates mapping selects) model

variable {model : Model} {mapping : DateMapping} {selects : DataDeclaration → Bool} {name : String}
  {definition : TypeExpr} {symbol : Symbol} {session : Session}

/-! ## One run -/

theorem dateCount_eq_zero_iff : model.dateCount selects = 0 ↔ ¬model.HasDate selects := by
  simp only [dateCount, HasDate, List.countP_eq_zero, List.mem_flatMap, List.mem_filter,
    TypeExpr.isTemporal_iff]
  constructor
  · rintro hnone ⟨d, hd, hselected, t, ht, hdate⟩
    exact hnone _ ⟨d, ⟨hd, hselected⟩, t, ht, hdate⟩ rfl
  · rintro hnone _ ⟨d, ⟨hd, hselected⟩, t, ht, hdate⟩ rfl
    exact hnone ⟨d, hd, hselected, t, ht, hdate⟩

theorem run_representDates_of_not_hasDate (h : ¬model.HasDate selects) :
    (model.representDates mapping selects).run session = (model, session) := by
  rw [representDates_eq, countAndReplaceDates]
  split
  · rfl
  · simp only [dateCount_eq_zero_iff.mpr h, if_true]
    rfl

/-- If there is a date, the symbol of the alias is issued and takes the place of dates. -/
theorem run_representDates_of_hasDate (halias : mapping.alias? = some (name, definition))
    (h : model.HasDate selects) (session : Session) :
    let run := (model.representDates mapping selects).run session
    let interned := session.symbols.intern (.synthetic name)
    run.1 = model.withDates selects interned.1 definition ∧ run.2.symbols = interned.2 := by
  have hcount : model.dateCount selects ≠ 0 := fun hzero => dateCount_eq_zero_iff.mp hzero h
  obtain ⟨hsymbol, htable⟩ := Work.run_symbol (.synthetic name) session
  intro run interned
  simp only [run, interned, representDates_eq, countAndReplaceDates, halias, if_neg hcount,
    ← hsymbol, ← htable, withDates]
  rw [StateT.run_bind]
  dsimp only [bind, Work.syntheticSymbol]
  split
  · exact ⟨rfl, rfl⟩
  · exact ⟨rfl, rfl⟩

/-! ## What is replaced -/

/-- Replacing the dates of a type replaces these leaves and no others. -/
theorem replacedBy_replaceDates (symbol : Symbol) (t : TypeExpr) :
    TypeExpr.ReplacedBy (StandsForDate symbol) t
      (t.transform fun n => if n.isTemporal then .bare symbol else n) := by
  refine .transform ?_ ?_ ?_ t
  · rintro _ _ ⟨rfl, -⟩
    rfl
  · rintro _ _ ⟨rfl, rfl⟩
    rfl
  · intro n hnone
    refine if_neg fun hdate => ?_
    exact hnone _ ⟨TypeExpr.isTemporal_iff.mp hdate, rfl⟩

theorem temporal_notMem_of_replacedBy {t u : TypeExpr}
    (h : TypeExpr.ReplacedBy (StandsForDate symbol) t u) : .temporal ∉ u.nodes := by
  intro hdate
  refine h.forall_nodes ?_ ?_ _ hdate (.bare symbol) ⟨rfl, rfl⟩
  · rintro _ _ ⟨rfl, -⟩
    rfl
  · rintro _ _ ⟨-, rfl⟩ n hn v ⟨rfl, -⟩
    simp [TypeExpr.nodes] at hn

theorem datesReplaced_withDates (model : Model) (selects : DataDeclaration → Bool) (symbol : Symbol)
    (definition : TypeExpr) :
    DatesReplaced symbol selects model (model.withDates selects symbol definition) := by
  refine ⟨rfl, List.forall₂_map_right_iff.mpr (List.forall₂_same.mpr fun d _ => ?_)⟩
  cases selects d with
  | false => rfl
  | true => exact ⟨.mapTypes fun t _ => replacedBy_replaceDates symbol t, rfl⟩

theorem declaredIn_withDates (model : Model) (selects : DataDeclaration → Bool) (symbol : Symbol)
    (definition : TypeExpr) :
    AliasDeclaration.DeclaredIn { symbol, definition } model.aliases
      (model.withDates selects symbol definition).aliases := by
  unfold withDates
  dsimp only
  split
  case isTrue hfound =>
    obtain ⟨a, ha, hsymbol⟩ := List.mem_map.mp (isSome_findAlias?.mp hfound)
    exact .known ⟨a, ha, hsymbol⟩
  case isFalse hfound =>
    refine .added fun a ha hsymbol => hfound (isSome_findAlias?.mpr ?_)
    exact List.mem_map.mpr ⟨a, ha, hsymbol⟩

/-- Where all declarations are selected, no date is left. -/
theorem not_hasDate_of_datesReplaced {model' : Model}
    (h : DatesReplaced symbol (fun _ => true) model model') (selects : DataDeclaration → Bool) :
    ¬model'.HasDate selects := by
  rintro ⟨d', hd', -, u, hu, hdate⟩
  obtain ⟨d, -, hretyped, -⟩ := exists_mem_of_forall₂ h.retyped hd'
  obtain ⟨t, -, hreplaced⟩ := hretyped.exists_of_mem_types hu
  exact temporal_notMem_of_replacedBy hreplaced hdate

/-- What one run does, whatever declarations are selected. -/
theorem representsDates_run (hmapping : mapping ≠ .unmodified) (selects : DataDeclaration → Bool)
    (model : Model) (session : Session) :
    RepresentsDates mapping selects model session
      ((model.representDates mapping selects).run session) := by
  refine ⟨run_representDates_of_not_hasDate, fun hdate => ?_⟩
  obtain ⟨⟨name, definition⟩, halias⟩ :=
    Option.ne_none_iff_exists'.mp (mt DateMapping.alias?_eq_none.mp hmapping)
  obtain ⟨hmodel, htable⟩ := run_representDates_of_hasDate halias hdate session
  have hdeclared := declaredIn_withDates model selects
    (session.symbols.intern (.synthetic name)).1 definition
  rw [hmodel, htable]
  exact ⟨name, definition, _, halias, rfl, datesReplaced_withDates _ _ _ _, hdeclared,
    hdeclared.exists_mem⟩

theorem RepresentsDates.not_hasDate {run : Model × Session}
    (h : RepresentsDates mapping (fun _ => true) model session run)
    (selects : DataDeclaration → Bool) : ¬run.1.HasDate selects := by
  by_cases hdate : model.HasDate fun _ => true
  · obtain ⟨_, _, _, -, -, hreplaced, -⟩ := h.replaced hdate
    exact not_hasDate_of_datesReplaced hreplaced selects
  · rw [h.idle hdate]
    exact fun ⟨d, hd, _, hfound⟩ => hdate ⟨d, hd, rfl, hfound⟩

/-! ## Runs one after the other -/

theorem DateAliasAdded.trans {table : SymbolTable}
    {aliases aliases' aliases'' : List AliasDeclaration}
    (first : DateAliasAdded mapping table aliases aliases')
    (second : DateAliasAdded mapping table aliases' aliases'') :
    DateAliasAdded mapping table aliases aliases'' := by
  rcases first with rfl | ⟨name, definition, symbol, halias, hsymbol, hnew, rfl⟩
  · exact second
  rcases second with rfl | ⟨name', definition', symbol', halias', hsymbol', hnew', -⟩
  · exact .inr ⟨name, definition, symbol, halias, hsymbol, hnew, rfl⟩
  · obtain rfl : name = name' := congrArg Prod.fst (Option.some.inj (halias.symm.trans halias'))
    have hsame : symbol = symbol' := Option.some.inj (hsymbol.symm.trans hsymbol')
    exact absurd hsame (hnew' _ (List.mem_append_right _ List.mem_cons_self))

/-- What one run does to the aliases. -/
theorem DatesRepresented.dateAliasAdded {table : SymbolTable} {model' : Model}
    (h : DatesRepresented table mapping selects model model') :
    DateAliasAdded mapping table model.aliases model'.aliases := by
  cases h with
  | kept _ => exact .inl rfl
  | @replaced name definition symbol halias hsymbol =>
    generalize haliases : (model.withDates selects symbol definition).aliases = aliases
    have hdeclared := declaredIn_withDates model selects symbol definition
    rw [haliases] at hdeclared
    cases hdeclared with
    | known _ => exact .inl rfl
    | added hnew => exact .inr ⟨name, definition, symbol, halias, hsymbol, hnew, rfl⟩

/-- Any number of runs declare one alias at most. -/
theorem yields_representDatesInTurn {lo hi : SymbolTable} (mapping : DateMapping)
    (selections : List (DataDeclaration → Bool)) (model : Model) :
    Work.Yields lo hi (model.representDatesInTurn mapping selections) fun model' =>
      DateAliasAdded mapping hi model.aliases model'.aliases := by
  induction selections generalizing model with
  | nil => exact .pure (Or.inl rfl)
  | cons selects rest ih =>
    rw [representDatesInTurn, List.foldlM_cons]
    refine .bind yields_representDates fun first => (ih first).mono fun last hrest hfirst => ?_
    exact hfirst.dateAliasAdded.trans hrest

/-- Representing the dates of all declarations leaves no date. The alias is declared exactly if a
date was replaced and it was missing, also by any number of runs for some of the declarations, and
another run does nothing. -/
theorem representsDates (hmapping : mapping = .asNumber ∨ mapping = .asString) (model : Model)
    (session : Session) :
    let run := (model.representDates mapping fun _ => true).run session
    ¬run.1.HasDate (fun _ => true) ∧
    (∀ selects, RepresentsDates mapping selects model session
      ((model.representDates mapping selects).run session)) ∧
    (∀ selections, let runs := (model.representDatesInTurn mapping selections).run session
      DateAliasAdded mapping runs.2.symbols model.aliases runs.1.aliases) ∧
    ∀ selects, (run.1.representDates mapping selects).run run.2 = run := by
  have hne : mapping ≠ .unmodified := by
    rcases hmapping with rfl | rfl
    · decide
    · decide
  have hnone := (representsDates_run hne (fun _ => true) model session).not_hasDate
  refine ⟨hnone _, fun selects => representsDates_run hne selects model session,
    fun selections => ?_, fun selects => run_representDates_of_not_hasDate (hnone selects)⟩
  exact (yields_representDatesInTurn mapping selections model).holds
    (le_refl session.symbols) (le_refl _)

/-- A class with dates in the types of a property, of the parameter and the result of a method, and
of the parameter of its constructor. -/
def agenda : Model where
  data :=
    [{ symbol := ⟨0⟩
       isClass := true
       properties := [{ name := "days", type := .optional (.array .temporal) }]
       methods :=
        [{ name := "move"
           parameters := [{ name := "days", type := .indexed .string .temporal }]
           result := .temporal }]
       ctor := some { parameters := [{ name := "start", type := .union [.temporal, .string] }] } }]

/-- One alias is declared for all dates, with the next symbol, and another run does nothing. -/
theorem representsDates_agenda :
    let run := (agenda.representDates .asString fun _ => true).run
      { symbols := .ofOrigins [.entity "Agenda" ""] }
    (DateMapping.asString = .asNumber ∨ DateMapping.asString = .asString) ∧
    agenda.HasDate (fun _ => true) ∧ ¬run.1.HasDate (fun _ => true) ∧
    run.1.aliases = [{ symbol := ⟨1⟩, definition := .string }] ∧
    run.2.symbols.origins = [.entity "Agenda" "", .synthetic "DateAsString"] ∧
    (run.1.representDates .asString fun _ => true).run run.2 = run := by
  intro run
  have hmapping : DateMapping.asString = .asNumber ∨ DateMapping.asString = .asString := Or.inr rfl
  have hdate : agenda.HasDate fun _ => true :=
    ⟨_, List.mem_cons_self, rfl, .temporal, by simp [DataDeclaration.types],
      TypeExpr.self_mem_nodes _⟩
  obtain ⟨hnone, hrun, -, hagain⟩ :=
    representsDates hmapping agenda { symbols := .ofOrigins [.entity "Agenda" ""] }
  obtain ⟨name, definition, symbol, halias, hintern, -, hdeclared, -⟩ := (hrun _).replaced hdate
  obtain ⟨rfl, rfl⟩ := Prod.mk.inj (Option.some.inj halias)
  obtain ⟨rfl, htable⟩ := Prod.mk.inj hintern
  refine ⟨hmapping, hdate, hnone, ?_, ?_, hagain _⟩
  · have hfirst : ∀ {a aliases}, AliasDeclaration.DeclaredIn a agenda.aliases aliases →
        aliases = [a] := by
      rintro a _ (⟨b, hb, -⟩ | _)
      · exact absurd hb List.not_mem_nil
      · rfl
    exact hfirst hdeclared
  · rw [← htable]
    decide

end Model

end Typings
