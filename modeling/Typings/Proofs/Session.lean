import Mathlib.Data.List.Forall2
import Typings.Proofs.Symbol.Table
import Typings.Session

/-!
# Reasoning about work on a session

Work only adds symbols to the table of its session. What it returns can therefore be described by
the table at any later time: `work.Yields lo hi post` says that a run which starts with a table
above `lo` and ends with one below `hi` returns a value that satisfies `post`. Choosing the final
table of a compilation for `hi` once and for all makes every `post` a plain statement that later
work cannot undo.

## Main definitions

* `Work.Yields`: what work returns while the table grows between two bounds.

## Main results

* `Work.Yields.bind`, `Work.Yields.mapM`: composition.
* `Work.yields_symbol`, `Work.yields_suffixedSymbol`: the issued symbols.
-/

namespace Typings

/-- Lists that are related entry by entry have equal images if related entries have. -/
theorem map_eq_map_of_forall₂ {α β γ : Type} {rel : α → β → Prop} {f : α → γ} {g : β → γ}
    {as : List α} {bs : List β} (h : List.Forall₂ rel as bs) (hrel : ∀ a b, rel a b → f a = g b) :
    as.map f = bs.map g := by
  induction h with
  | nil => rfl
  | cons hfirst _ ih => rw [List.map_cons, List.map_cons, hrel _ _ hfirst, ih]

theorem exists_mem_of_forall₂ {α β : Type} {rel : α → β → Prop} {as : List α} {bs : List β}
    (h : List.Forall₂ rel as bs) {b : β} (hb : b ∈ bs) : ∃ a ∈ as, rel a b := by
  induction h with
  | nil => exact absurd hb List.not_mem_nil
  | cons hfirst _ ih =>
    rcases List.mem_cons.mp hb with rfl | hb
    · exact ⟨_, List.mem_cons_self, hfirst⟩
    · obtain ⟨a, ha, hrel⟩ := ih hb
      exact ⟨a, List.mem_cons_of_mem _ ha, hrel⟩

end Typings

namespace Typings.Work

variable {α β : Type} {lo hi : SymbolTable}

/-- Runs of the work add symbols only, and a run whose table grows between `lo` and `hi` returns a
value that satisfies `post`. -/
structure Yields (lo hi : SymbolTable) (work : Work α) (post : α → Prop) : Prop where
  grows (s : Session) : s.symbols ≤ (work.run s).2.symbols
  holds {s : Session} (after : lo ≤ s.symbols) (before : (work.run s).2.symbols ≤ hi) :
    post (work.run s).1

namespace Yields

theorem pure {a : α} {post : α → Prop} (h : post a) : Yields lo hi (pure a : Work α) post where
  grows s := le_refl s.symbols
  holds _ _ := h

variable {work : Work α} {post : β → Prop}

theorem bind {next : α → Work β} {P : α → Prop} (first : Yields lo hi work P)
    (rest : ∀ a, Yields lo hi (next a) fun b => P a → post b) :
    Yields lo hi (work >>= next) post where
  grows s := le_trans (first.grows s) ((rest _).grows _)
  holds {s} after before := by
    have hmid : (work.run s).2.symbols ≤ hi := le_trans ((rest (work.run s).1).grows _) before
    exact (rest (work.run s).1).holds (le_trans after (first.grows s)) before
      (first.holds after hmid)

theorem mono {post post' : α → Prop} (h : Yields lo hi work post) (himp : ∀ a, post a → post' a) :
    Yields lo hi work post' where
  grows := h.grows
  holds after before := himp _ (h.holds after before)

theorem and {work : Work α} {P Q : α → Prop} (h : Yields lo hi work P) (h' : Yields lo hi work Q) :
    Yields lo hi work fun a => P a ∧ Q a where
  grows := h.grows
  holds after before := ⟨h.holds after before, h'.holds after before⟩

/-- The rest of some work may rely on the symbols that its first part issued. -/
theorem bind_after {next : α → Work β} {P : α → Prop} (first : Yields lo hi work P)
    (rest : ∀ s, Yields (work.run s).2.symbols hi (next (work.run s).1) fun b => P (work.run s).1 →
      post b) : Yields lo hi (work >>= next) post where
  grows s := le_trans (first.grows s) ((rest s).grows _)
  holds {s} after before := by
    have hmid : (work.run s).2.symbols ≤ hi := le_trans ((rest s).grows _) before
    exact (rest s).holds (le_refl _) before (first.holds after hmid)

theorem map {f : α → β} (h : Yields lo hi work fun a => post (f a)) :
    Yields lo hi (f <$> work) post where
  grows := h.grows
  holds := h.holds

theorem mapM {f : α → Work β} {R : α → β → Prop} {as : List α}
    (h : ∀ a ∈ as, Yields lo hi (f a) (R a)) :
    Yields lo hi (as.mapM f) (List.Forall₂ R as) := by
  induction as with
  | nil => exact .pure .nil
  | cons a as ih =>
    rw [List.mapM_cons]
    obtain ⟨hfirst, hrest⟩ := List.forall_mem_cons.mp h
    refine .bind hfirst fun b => .bind (ih hrest) fun bs => .pure ?_
    intro hbs hb
    exact .cons hb hbs

theorem forM {f : α → Work Unit} {as : List α} (h : ∀ a, Yields lo hi (f a) fun _ => True) :
    Yields lo hi (as.forM f) fun _ => True := by
  induction as with
  | nil => exact .pure trivial
  | cons a as ih => exact .bind (h a) fun _ => ih.mono fun _ _ _ => trivial

end Yields

/-! ## The parts that work is made of -/

theorem yields_report (level : Level) (component : Component) (message : String) :
    Yields lo hi (report level component message) fun _ => True where
  grows s := le_refl s.symbols
  holds _ _ := trivial

theorem yields_warn (warning : Warning) : Yields lo hi (warn warning) fun _ => True where
  grows s := le_refl s.symbols
  holds _ _ := trivial

theorem run_symbol (origin : Origin) (s : Session) :
    ((symbol origin).run s).1 = (s.symbols.intern origin).1 ∧
      ((symbol origin).run s).2.symbols = (s.symbols.intern origin).2 := by
  simp only [symbol, StateT.run_bind, StateT.run_get, pure_bind]
  split
  · exact ⟨rfl, rfl⟩
  · exact ⟨rfl, rfl⟩

/-- The symbol of an origin is the one that all later tables have for it. -/
theorem yields_symbol (origin : Origin) :
    Yields lo hi (symbol origin) fun issued => hi.find? origin = some issued where
  grows s := by
    rw [(run_symbol origin s).2]
    exact s.symbols.le_intern origin
  holds {s} _ before := by
    obtain ⟨hvalue, htable⟩ := run_symbol origin s
    rw [htable] at before
    rw [hvalue]
    exact SymbolTable.find?_mono before (s.symbols.find?_intern origin)

theorem yields_entitySymbol (name suffix : String) :
    Yields lo hi (entitySymbol name suffix) fun issued =>
      hi.find? (.entity name suffix) = some issued :=
  yields_symbol _

theorem yields_syntheticSymbol (name : String) :
    Yields lo hi (syntheticSymbol name) fun issued => hi.find? (.synthetic name) = some issued :=
  yields_symbol _

/-- The symbol that is derived from one that was issued before the work began. -/
theorem yields_suffixedSymbol (base : Symbol) (suffix : String) :
    Yields lo hi (suffixedSymbol base suffix) fun issued =>
      ∀ origin, lo.origin? base = some origin →
        hi.find? (origin.addSuffix suffix) = some issued where
  grows s := (@yields_symbol lo hi _).grows s
  holds {s} after before := by
    intro origin hbase
    have hsuffixed : s.symbols.suffixedOrigin base suffix = origin.addSuffix suffix := by
      simp [SymbolTable.suffixedOrigin, SymbolTable.origin?_mono after hbase]
    rw [← hsuffixed]
    exact (yields_symbol _).holds after before

theorem origin?_run_symbol (origin : Origin) (s : Session) :
    ((symbol origin).run s).2.symbols.origin? ((symbol origin).run s).1 = some origin := by
  obtain ⟨hvalue, htable⟩ := run_symbol origin s
  rw [hvalue, htable]
  exact SymbolTable.origin?_of_find? (s.symbols.find?_intern origin)

theorem yields_during {work : Work α} {post : α → Prop} (span : Span)
    (h : Yields lo hi work post) : Yields lo hi (during span work) post where
  grows s := h.grows { s with events := [] }
  holds {s} after before := h.holds (s := { s with events := [] }) after before

end Typings.Work
