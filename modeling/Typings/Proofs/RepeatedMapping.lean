import Typings.Proofs.Mapping.Steps

/-!
# Mapping a type again

Symbols are issued while a source type is mapped, one after the other and also if the type is not
recognised in the end. Since a table keeps what it issued, mapping the type again at any later time
asks for the same symbols, finds all of them and returns the same result.

## Main definitions

* `Work.Repeatable`: work that issues nothing new when it is done again.
* `Session.visits`: how often a source type was looked at.
* `Mapper.Settles`: what mapping a type does, the first time and ever after.

## Main results

* `Work.Repeatable.bind`, `Work.repeatable_symbol`: what repeatable work is made of.
* `Mapper.repeatable_map`: mapping is repeatable.
* `Mapper.visits_map`: mapping looks at each part of a type at most once.
* `Mapper.exists_find?_of_mem_symbols`: a mapped type refers to declared names.
* `Mapper.settles_map`: mapping settles what becomes of a type.
-/

namespace Typings

theorem SymbolTable.exists_origins_intern (table : SymbolTable) (origin : Origin) :
    ∃ issued, (table.intern origin).2.origins = table.origins ++ issued ∧
      ∀ o ∈ issued, o = origin := by
  unfold intern
  split
  · exact ⟨[], (List.append_nil _).symm, by simp⟩
  · exact ⟨[origin], rfl, by simp⟩

/-! ## Repeatable work -/

namespace Work

variable {α β : Type} {asked : Origin → Prop}

/-- Whether work issues symbols for the given origins only and, when it is done again later, returns
the same and issues nothing. -/
structure Repeatable (asked : Origin → Prop) (work : Work α) : Prop where
  issues (s : Session) : ∃ issued,
    (work.run s).2.symbols.origins = s.symbols.origins ++ issued ∧ ∀ origin ∈ issued, asked origin
  again {s later : Session} (h : (work.run s).2.symbols ≤ later.symbols) :
    (work.run later).1 = (work.run s).1 ∧ (work.run later).2.symbols = later.symbols

namespace Repeatable

theorem le {work : Work α} (h : Repeatable asked work) (s : Session) :
    s.symbols ≤ (work.run s).2.symbols := by
  obtain ⟨issued, hissued, -⟩ := h.issues s
  exact ⟨issued, hissued.symm⟩

theorem pure (a : α) : Repeatable asked (pure a : Work α) where
  issues s := ⟨[], (List.append_nil _).symm, by simp⟩
  again _ := ⟨rfl, rfl⟩

theorem bind {work : Work α} {next : α → Work β} (first : Repeatable asked work)
    (rest : ∀ a, Repeatable asked (next a)) : Repeatable asked (work >>= next) where
  issues s := by
    obtain ⟨issued, hissued, hasked⟩ := first.issues s
    obtain ⟨issued', hissued', hasked'⟩ := (rest (work.run s).1).issues (work.run s).2
    refine ⟨issued ++ issued', ?_, List.forall_mem_append.mpr ⟨hasked, hasked'⟩⟩
    rw [← List.append_assoc, ← hissued]
    exact hissued'
  again {s later} h := by
    have hfirst := first.again (le_trans ((rest (work.run s).1).le _) h)
    have hrest : ((next (work.run s).1).run (work.run s).2).2.symbols ≤
        (work.run later).2.symbols := by
      rw [hfirst.2]
      exact h
    have hrun : (work >>= next).run later = (next (work.run s).1).run (work.run later).2 := by
      rw [← hfirst.1]
      rfl
    rw [hrun, ← hfirst.2]
    exact (rest (work.run s).1).again hrest

end Repeatable

theorem repeatable_report (level : Level) (component : Component) (message : String) :
    Repeatable asked (report level component message) where
  issues s := ⟨[], (List.append_nil _).symm, by simp⟩
  again _ := ⟨rfl, rfl⟩

theorem repeatable_symbol {origin : Origin} (h : asked origin) :
    Repeatable asked (symbol origin) where
  issues s := by
    obtain ⟨issued, hissued, horigin⟩ := s.symbols.exists_origins_intern origin
    refine ⟨issued, ?_, fun o ho => horigin o ho ▸ h⟩
    rw [(run_symbol origin s).2]
    exact hissued
  again {s later} hle := by
    obtain ⟨hvalue, htable⟩ := run_symbol origin s
    obtain ⟨hvalue', htable'⟩ := run_symbol origin later
    rw [htable] at hle
    have hfound := SymbolTable.find?_mono hle (s.symbols.find?_intern origin)
    rw [hvalue, hvalue', htable', SymbolTable.intern_of_find? hfound]
    exact ⟨rfl, rfl⟩

end Work

/-! ## Visits -/

/-- How often a source type was looked at: each time, it is reported whether it was recognised. -/
def Session.visits (s : Session) : Nat :=
  s.events.countP (·.component = .mapping)

namespace Work

variable {α β : Type} {m n : Nat}

/-- Whether work looks at source types that often at most. -/
def Visits (n : Nat) (work : Work α) : Prop :=
  ∀ s, (work.run s).2.visits ≤ s.visits + n

theorem Visits.bind {work : Work α} {next : α → Work β} (first : Visits m work)
    (rest : ∀ a, Visits n (next a)) : Visits (m + n) (work >>= next) := by
  intro s
  have hfirst := first s
  have hrest := rest (work.run s).1 (work.run s).2
  have hrun : (work >>= next).run s = (next (work.run s).1).run (work.run s).2 := rfl
  rw [hrun]
  omega

theorem visits_symbol (origin : Origin) : Visits 0 (symbol origin) := by
  intro s
  simp only [symbol, StateT.run_bind, StateT.run_get, pure_bind]
  split
  case isTrue =>
    exact Nat.le_of_eq (List.countP_append.trans (Nat.add_zero _))
  case isFalse => exact Nat.le_refl _

theorem visits_report (message : String) : Visits 1 (report .trace .mapping message) :=
  fun _ => Nat.le_of_eq List.countP_append

end Work

namespace Mapper

open Work

variable {mapper : Mapper} {source : SourceType} {session : Session}

theorem repeatable_map (mapper : Mapper) (source : SourceType) :
    Repeatable mapper.Asked (mapper.map source) :=
  composed_map (P := fun _ _ => Repeatable mapper.Asked)
    { mono := fun h _ => h
      pure := .pure
      bind := .bind
      report := fun _ => repeatable_report _ _ _
      symbol := fun _ => repeatable_symbol } source

/-- Mapping looks at each part of a type at most once. -/
theorem visits_map (mapper : Mapper) (source : SourceType) :
    Visits source.size (mapper.map source) :=
  composed_map (P := fun n _ => Visits n)
    { mono := fun h hle s => Nat.le_trans (h s) (Nat.add_le_add_left hle _)
      pure := fun _ _ => Nat.le_refl _
      bind := .bind
      report := visits_report
      symbol := fun origin _ => visits_symbol origin } source

/-! ## Results -/

/-- A symbol in what a type is mapped to was issued for a declared name. -/
theorem exists_find?_of_mem_symbols {t : TypeExpr}
    (h : ((mapper.map source).run session).1 = .ok t) {s : Symbol} (hs : s ∈ t.symbols) :
    ∃ name ∈ mapper.declaredNames,
      ((mapper.map source).run session).2.symbols.find? (.entity name "") = some s := by
  generalize htable : ((mapper.map source).run session).2.symbols = table
  let symbolOf := fun name => (table.find? (.entity name "")).getD ⟨s.id + 1⟩
  have hnamed : table.NamedBy symbolOf := fun name symbol hfound => by
    simp only [symbolOf, hfound, Option.getD_some]
  have himage : mapper.image symbolOf source = .ok t := by
    rw [← h]
    exact ((yields_image hnamed source).holds (le_refl session.symbols) (le_of_eq htable)).symm
  let voc : Vocabulary := { symbol := fun s _ => ∃ name ∈ mapper.declaredNames, symbolOf name = s }
  have hcovered : mapper.Covered symbolOf voc :=
    ⟨fun name hname _ => ⟨name, hname, rfl⟩, fun _ => trivial⟩
  obtain ⟨args, hnode⟩ := TypeExpr.mem_symbols.mp hs
  obtain ⟨name, hname, hsymbol⟩ := within_image hcovered source (fun _ _ => trivial) himage _ hnode
  refine ⟨name, hname, ?_⟩
  cases hfound : table.find? (.entity name "") with
  | some symbol => rw [← hnamed name symbol hfound, hsymbol]
  | none =>
    have hother : (⟨s.id + 1⟩ : Symbol) = s := by
      simpa only [symbolOf, hfound, Option.getD_none] using hsymbol
    exact absurd (congrArg Symbol.id hother) (Nat.succ_ne_self s.id)

/-- Whether a run settles what becomes of a source type. Each part of the type is looked at once at
most. Symbols are issued for declared names only, and a mapped type refers to such symbols. Any
later run, with whatever symbols were issued since, gives the same result and issues nothing. -/
structure Settles (mapper : Mapper) (source : SourceType) (session : Session)
    (run : Except Unresolved TypeExpr × Session) : Prop where
  visits_le : run.2.visits ≤ session.visits + source.size
  issued : ∃ issued, run.2.symbols.origins = session.symbols.origins ++ issued ∧
    ∀ origin ∈ issued, ∃ name ∈ mapper.declaredNames, origin = .entity name ""
  refers : ∀ t, run.1 = .ok t → ∀ s ∈ t.symbols,
    ∃ name ∈ mapper.declaredNames, run.2.symbols.origin? s = some (.entity name "")
  again : ∀ later : Session, run.2.symbols.origins <+: later.symbols.origins →
    ((mapper.map source).run later).1 = run.1 ∧
      ((mapper.map source).run later).2.symbols = later.symbols

/-- Whatever resolvers a mapper has and in whatever order, mapping a type settles what becomes of
it. -/
theorem settles_map (chain : List Resolver) (settings : Settings) (graph : SourceGraph)
    (source : SourceType) (session : Session) :
    let mapper := Mapper.ofChain chain settings graph
    mapper.declaredNames = graph.classes.map (·.name) ++ graph.enums.map (·.name) ∧
      mapper.Settles source session ((mapper.map source).run session) := by
  intro mapper
  have hrepeatable := mapper.repeatable_map source
  refine ⟨rfl, mapper.visits_map source session, hrepeatable.issues session, fun t ht s hs => ?_,
    fun later hlater => hrepeatable.again hlater⟩
  obtain ⟨name, hname, hfound⟩ := exists_find?_of_mem_symbols ht hs
  exact ⟨name, hname, SymbolTable.origin?_of_find? hfound⟩

/-- A union with a type that is not recognised is not mapped, but symbols are issued for the types
before it. -/
example :
    let run := ((Mapper.builtIn {} { classes := [{ name := "Pet" }, { name := "Toy" }] }).map
      (.union [.array (.named "Pet" []), .named "Missing" [], .named "Toy" []])).run {}
    run.1 = .error ⟨"Missing"⟩ ∧ run.2.symbols.origins = [.entity "Pet" ""] := by
  exact ⟨rfl, rfl⟩

end Mapper

end Typings
