import Typings.Proofs.Mapping.Steps

/-!
# The warnings that work raises

Work adds its warnings behind those of its session. As with the values that work returns, which
warnings these are can be described by the table at any later time: `work.Raises lo hi post` says
that a run which starts with a table above `lo` and ends with one below `hi` returns a value and
raises warnings that satisfy `post`.

## Main definitions

* `Work.Silent`: work that raises no warning.
* `Work.Raises`: what work returns and which warnings it raises.

## Main results

* `Work.Raises.bind`, `Work.Raises.of_yields`: composition, and work that is silent.
* `Mapper.silent_map`: mapping a source type raises no warning, whatever becomes of it.
-/

namespace Typings.Work

variable {α β : Type} {lo hi : SymbolTable}

/-- Whether work raises no warning. -/
def Silent (work : Work α) : Prop :=
  ∀ s, (work.run s).2.warnings = s.warnings

namespace Silent

theorem pure (a : α) : Silent (pure a : Work α) :=
  fun _ => rfl

theorem bind {work : Work α} {next : α → Work β} (first : Silent work)
    (rest : ∀ a, Silent (next a)) : Silent (work >>= next) :=
  fun s => (rest (work.run s).1 (work.run s).2).trans (first s)

theorem mapM {f : α → Work β} (h : ∀ a, Silent (f a)) (as : List α) : Silent (as.mapM f) := by
  induction as with
  | nil => exact .pure []
  | cons a as ih =>
    rw [List.mapM_cons]
    exact .bind (h a) fun _ => .bind ih fun _ => .pure _

end Silent

theorem silent_report (level : Level) (component : Component) (message : String) :
    Silent (report level component message) :=
  fun _ => rfl

theorem silent_symbol (origin : Origin) : Silent (symbol origin) := by
  intro s
  simp only [symbol, StateT.run_bind, StateT.run_get, pure_bind]
  split
  · rfl
  · rfl

/-- Runs of the work add symbols only, and a run whose table grows between `lo` and `hi` returns a
value and raises warnings that satisfy `post`. -/
structure Raises (lo hi : SymbolTable) (work : Work α) (post : α → List Warning → Prop) : Prop where
  grows (s : Session) : s.symbols ≤ (work.run s).2.symbols
  holds {s : Session} (after : lo ≤ s.symbols) (before : (work.run s).2.symbols ≤ hi) :
    ∃ raised, (work.run s).2.warnings = s.warnings ++ raised ∧ post (work.run s).1 raised

namespace Raises

variable {work : Work α} {post : β → List Warning → Prop}

theorem of_yields {post : α → Prop} (h : Yields lo hi work post) (hsilent : Silent work) :
    Raises lo hi work fun a raised => post a ∧ raised = [] where
  grows := h.grows
  holds {s} after before :=
    ⟨[], by rw [hsilent s, List.append_nil], h.holds after before, rfl⟩

theorem pure {a : α} {post : α → List Warning → Prop} (h : post a []) :
    Raises lo hi (pure a : Work α) post where
  grows s := le_refl s.symbols
  holds {s} _ _ := ⟨[], (List.append_nil s.warnings).symm, h⟩

theorem bind {next : α → Work β} {P : α → List Warning → Prop} (first : Raises lo hi work P)
    (rest : ∀ a, Raises lo hi (next a) fun b raised => ∀ earlier, P a earlier →
      post b (earlier ++ raised)) : Raises lo hi (work >>= next) post where
  grows s := le_trans (first.grows s) ((rest _).grows _)
  holds {s} after before := by
    have hmid : (work.run s).2.symbols ≤ hi := le_trans ((rest (work.run s).1).grows _) before
    obtain ⟨earlier, hearlier, hP⟩ := first.holds after hmid
    obtain ⟨raised, hraised, hpost⟩ :=
      (rest (work.run s).1).holds (le_trans after (first.grows s)) before
    refine ⟨earlier ++ raised, ?_, hpost earlier hP⟩
    rw [← List.append_assoc, ← hearlier]
    exact hraised

/-- Work that begins with something silent raises the warnings of the rest. -/
theorem bind_silent {next : α → Work β} {P : α → Prop} (first : Yields lo hi work P)
    (hsilent : Silent work)
    (rest : ∀ a, Raises lo hi (next a) fun b raised => P a → post b raised) :
    Raises lo hi (work >>= next) post := by
  refine .bind (.of_yields first hsilent) fun a => ⟨(rest a).grows, fun after before => ?_⟩
  obtain ⟨raised, hraised, hpost⟩ := (rest a).holds after before
  refine ⟨raised, hraised, ?_⟩
  rintro - ⟨ha, rfl⟩
  exact hpost ha

theorem mono {post post' : α → List Warning → Prop} (h : Raises lo hi work post)
    (himp : ∀ a raised, post a raised → post' a raised) :
    Raises lo hi work post' where
  grows := h.grows
  holds after before := by
    obtain ⟨raised, hraised, hpost⟩ := h.holds after before
    exact ⟨raised, hraised, himp _ _ hpost⟩

theorem map {f : α → β} (h : Raises lo hi work fun a => post (f a)) :
    Raises lo hi (f <$> work) post where
  grows := h.grows
  holds := h.holds

end Raises

theorem raises_warn (warning : Warning) :
    Raises lo hi (warn warning) fun _ raised => raised = [warning] where
  grows s := le_refl s.symbols
  holds _ _ := ⟨[warning], rfl, rfl⟩

theorem raises_during {work : Work α} {post : α → List Warning → Prop} (span : Span)
    (h : Raises lo hi work post) : Raises lo hi (during span work) post where
  grows s := h.grows { s with events := [] }
  holds {s} after before := h.holds (s := { s with events := [] }) after before

end Typings.Work

namespace Typings.Mapper

open Work

/-- Mapping a source type raises no warning, whether it is recognised or not. -/
theorem silent_map {mapper : Mapper} (source : SourceType) : Silent (mapper.map source) :=
  composed_map (P := fun _ _ => Silent)
    { mono := fun h _ => h
      pure := .pure
      bind := .bind
      report := fun _ => silent_report _ _ _
      symbol := fun origin _ => silent_symbol origin } source

end Typings.Mapper
