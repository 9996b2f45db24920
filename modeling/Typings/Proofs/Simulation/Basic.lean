import Mathlib.Logic.Equiv.Basic
import Typings.Proofs.Session

/-!
# Comparing two runs

Two runs that ask for the same origins in a different order issue different symbols. They are
compared through a permutation of symbols that sends the symbol of an origin in the final table of
the first run to its symbol in the final table of the second one. As in `Work.Yields` the final
tables are fixed beforehand, so that the values of earlier steps stay related while the tables still
grow.

What a step does is described for all sessions between two tables at once: it returns one value and
asks for one set of origins. Steps that are done in another order then still do the same.

## Main definitions

* `Correspondence`: the tables of two runs and a permutation of symbols.
* `Work.Does`: what work returns and which origins it asks for.
* `Work.Sim`: two pieces of work return related values and ask for the same origins.

## Main results

* `Correspondence.exists_symbols`: any two tables correspond through some permutation.
* `Work.Sim.bind`, `Work.Sim.mapM_perm`: composition, in the same order and in another one.
-/

namespace Typings

/-! ## Correspondence of symbols -/

/-- Pairs whose components determine each other belong to a permutation. -/
theorem exists_perm_of_pairs {α : Type} [DecidableEq α] (pairs : List (α × α))
    (h : ∀ p ∈ pairs, ∀ q ∈ pairs, p.1 = q.1 ↔ p.2 = q.2) :
    ∃ perm : Equiv.Perm α, ∀ p ∈ pairs, perm p.1 = p.2 := by
  induction pairs with
  | nil => exact ⟨Equiv.refl α, fun _ hp => absurd hp List.not_mem_nil⟩
  | cons p rest ih =>
    obtain ⟨perm, hperm⟩ := ih fun q hq r hr =>
      h q (List.mem_cons_of_mem _ hq) r (List.mem_cons_of_mem _ hr)
    refine ⟨perm.trans (Equiv.swap (perm p.1) p.2), fun q hq => ?_⟩
    rw [Equiv.trans_apply]
    by_cases hfirst : q.1 = p.1
    · rw [hfirst, Equiv.swap_apply_left]
      exact ((h q hq p List.mem_cons_self).mp hfirst).symm
    · have hrest : q ∈ rest := (List.mem_cons.mp hq).resolve_left fun heq => hfirst (heq ▸ rfl)
      have hsecond : q.2 ≠ p.2 := fun heq => hfirst ((h q hq p List.mem_cons_self).mpr heq)
      have himage : q.2 ≠ perm p.1 := fun heq =>
        hfirst (perm.injective ((hperm q hrest).trans heq))
      rw [hperm q hrest, Equiv.swap_apply_of_ne_of_ne himage hsecond]

/-- The tables between which two runs are compared, and a permutation that sends the symbols of the
first run to those that the second run issues for the same origins. -/
structure Correspondence where
  lo : SymbolTable
  hi : SymbolTable
  lo' : SymbolTable
  hi' : SymbolTable
  symbols : Equiv.Perm Symbol
  carries {origin : Origin} {s s' : Symbol} (h : hi.find? origin = some s)
    (h' : hi'.find? origin = some s') : symbols s = s'

/-- Any two tables correspond through some permutation. -/
theorem Correspondence.exists_symbols (hi hi' : SymbolTable) :
    ∃ symbols : Equiv.Perm Symbol, ∀ origin s s', hi.find? origin = some s →
      hi'.find? origin = some s' → symbols s = s' := by
  let pair? := fun origin => (hi.find? origin).bind fun s => (hi'.find? origin).map (s, ·)
  have hpair : ∀ {origin : Origin} {p : Symbol × Symbol},
      pair? origin = some p ↔ hi.find? origin = some p.1 ∧ hi'.find? origin = some p.2 := by
    intro origin p
    simp only [pair?, Option.bind_eq_some_iff, Option.map_eq_some_iff]
    constructor
    · rintro ⟨s, hs, s', hs', rfl⟩
      exact ⟨hs, hs'⟩
    · rintro ⟨hs, hs'⟩
      exact ⟨p.1, hs, p.2, hs', rfl⟩
  obtain ⟨symbols, hsymbols⟩ := exists_perm_of_pairs (hi.origins.filterMap pair?) <| by
    intro p hp q hq
    obtain ⟨o, -, ho⟩ := List.mem_filterMap.mp hp
    obtain ⟨o', -, ho'⟩ := List.mem_filterMap.mp hq
    obtain ⟨hfirst, hsecond⟩ := hpair.mp ho
    obtain ⟨hfirst', hsecond'⟩ := hpair.mp ho'
    constructor
    · intro heq
      obtain rfl := SymbolTable.find?_injective hfirst (heq ▸ hfirst')
      exact Option.some.inj (hsecond.symm.trans hsecond')
    · intro heq
      obtain rfl := SymbolTable.find?_injective hsecond (heq ▸ hsecond')
      exact Option.some.inj (hfirst.symm.trans hfirst')
  refine ⟨symbols, fun origin s s' hs hs' => hsymbols (s, s') ?_⟩
  have horigin : origin ∈ hi.origins := List.mem_of_getElem? (SymbolTable.origin?_of_find? hs)
  exact List.mem_filterMap.mpr ⟨origin, horigin, hpair.mpr ⟨hs, hs'⟩⟩

/-- Symbols that correspond have the same origin, if both tables hold the same origins. -/
theorem Correspondence.origin?_symbols (c : Correspondence)
    (hperm : c.hi.origins.Perm c.hi'.origins) (s : Symbol) :
    c.hi'.origin? (c.symbols s) = c.hi.origin? s := by
  have hboth : ∀ origin ∈ c.hi.origins, ∃ t, c.hi.origin? t = some origin ∧
      c.hi'.origin? (c.symbols t) = some origin := by
    intro origin horigin
    obtain ⟨t, ht⟩ := SymbolTable.exists_find?_of_mem horigin
    obtain ⟨t', ht'⟩ := SymbolTable.exists_find?_of_mem (hperm.mem_iff.mp horigin)
    rw [← c.carries ht ht'] at ht'
    exact ⟨t, SymbolTable.origin?_of_find? ht, SymbolTable.origin?_of_find? ht'⟩
  refine Option.ext fun origin => ⟨fun h => ?_, fun h => ?_⟩
  · obtain ⟨t, ht, ht'⟩ := hboth origin (hperm.mem_iff.mpr (List.mem_of_getElem? h))
    rwa [← c.symbols.injective (SymbolTable.eq_of_origin? ht' h)]
  · obtain ⟨t, ht, ht'⟩ := hboth origin (List.mem_of_getElem? h)
    rwa [← SymbolTable.eq_of_origin? ht h]

namespace Work

variable {α β α' β' : Type}

/-! ## What one run does -/

/-- Runs of the work only add symbols. -/
def Grows (work : Work α) : Prop :=
  ∀ s : Session, s.symbols ≤ (work.run s).2.symbols

/-- A run from the session goes from a table above `lo` to a table below `hi`. -/
structure Between (lo hi : SymbolTable) (work : Work α) (s : Session) : Prop where
  after : lo ≤ s.symbols
  before : (work.run s).2.symbols ≤ hi

/-- Runs between two tables all return one value and ask for the same origins. -/
structure Does (lo hi : SymbolTable) (work : Work α) (value : α) (asked : Origin → Prop) :
    Prop where
  value {s : Session} (h : Between lo hi work s) : (work.run s).1 = value
  mem_iff {s : Session} (h : Between lo hi work s) {origin : Origin} :
    origin ∈ (work.run s).2.symbols.origins ↔ origin ∈ s.symbols.origins ∨ asked origin

theorem Yields.toGrows {lo hi : SymbolTable} {work : Work α} {post : α → Prop}
    (h : Yields lo hi work post) : work.Grows :=
  h.grows

namespace Grows

theorem pure (a : α) : (pure a : Work α).Grows := fun s => le_refl s.symbols

theorem bind {work : Work α} {next : α → Work β} (first : work.Grows) (rest : ∀ a, (next a).Grows) :
    (work >>= next).Grows :=
  fun s => le_trans (first s) (rest _ _)

theorem mapM {f : α → Work β} {as : List α} (h : ∀ a ∈ as, (f a).Grows) : (as.mapM f).Grows := by
  induction as with
  | nil => exact .pure []
  | cons a as ih =>
    rw [List.mapM_cons]
    obtain ⟨hfirst, hrest⟩ := List.forall_mem_cons.mp h
    exact .bind hfirst fun b => .bind (ih hrest) fun bs => .pure (b :: bs)

end Grows

section Does

variable {lo hi : SymbolTable} {work : Work α} {next : α → Work β} {a : α} {b : β}
  {asked asked' : Origin → Prop} {s : Session}

theorem Between.first (h : Between lo hi (work >>= next) s) (hgrows : ∀ a, (next a).Grows) :
    Between lo hi work s where
  after := h.after
  before := le_trans (hgrows _ _) h.before

theorem Between.rest (h : Between lo hi (work >>= next) s) (hwork : work.Grows)
    (hvalue : (work.run s).1 = a) : Between lo hi (next a) (work.run s).2 where
  after := le_trans h.after (hwork s)
  before := by
    have hrun : ((work >>= next).run s) = (next (work.run s).1).run (work.run s).2 := rfl
    rw [← hvalue, ← hrun]
    exact h.before

theorem Does.pure (a : α) : Does lo hi (pure a : Work α) a fun _ => False where
  value _ := rfl
  mem_iff _ := (or_false _).symm.to_iff

theorem Does.bind (first : Does lo hi work a asked) (rest : Does lo hi (next a) b asked')
    (hwork : work.Grows) (hnext : ∀ a, (next a).Grows) :
    Does lo hi (work >>= next) b fun origin => asked origin ∨ asked' origin := by
  have hrun : ∀ {s}, Between lo hi (work >>= next) s →
      ((work >>= next).run s) = (next a).run (work.run s).2 := by
    intro s h
    rw [← first.value (h.first hnext)]
    rfl
  have hrest : ∀ {s}, Between lo hi (work >>= next) s → Between lo hi (next a) (work.run s).2 :=
    fun h => h.rest hwork (first.value (h.first hnext))
  constructor
  · intro s h
    rw [hrun h, rest.value (hrest h)]
  · intro s h origin
    rw [hrun h, rest.mem_iff (hrest h), first.mem_iff (h.first hnext), or_assoc]

theorem Does.congr (h : Does lo hi work a asked) (hasked : ∀ origin, asked origin ↔ asked' origin) :
    Does lo hi work a asked' where
  value := h.value
  mem_iff hs := (h.mem_iff hs).trans (or_congr_right (hasked _))

theorem Does.mapM {f : α → Work β} {value : α → β} {asked : α → Origin → Prop} {as : List α}
    (h : ∀ a ∈ as, Does lo hi (f a) (value a) (asked a)) (hgrows : ∀ a ∈ as, (f a).Grows) :
    Does lo hi (as.mapM f) (as.map value) fun origin => ∃ a ∈ as, asked a origin := by
  induction as with
  | nil => exact (Does.pure []).congr fun origin => by simp
  | cons a as ih =>
    rw [List.mapM_cons]
    obtain ⟨hfirst, hrest⟩ := List.forall_mem_cons.mp h
    obtain ⟨hgrow, hgrows⟩ := List.forall_mem_cons.mp hgrows
    have hlast :=
      (ih hrest hgrows).bind (Does.pure (value a :: as.map value)) (.mapM hgrows) fun bs =>
      .pure (value a :: bs)
    refine (hfirst.bind hlast hgrow fun b => .bind (.mapM hgrows) fun bs => .pure (b :: bs)).congr
      ?_
    intro origin
    simp

/-- If work on a list can be done between two tables, so can the work on each of its entries. -/
theorem exists_between_of_mapM {f : α → Work β} {as : List α} (hgrows : ∀ a ∈ as, (f a).Grows)
    (h : Between lo hi (as.mapM f) s) {a : α} (ha : a ∈ as) : ∃ s, Between lo hi (f a) s := by
  induction as generalizing s with
  | nil => exact absurd ha List.not_mem_nil
  | cons first as ih =>
    rw [List.mapM_cons] at h
    obtain ⟨hgrow, hgrows⟩ := List.forall_mem_cons.mp hgrows
    have hrest : ∀ b, (as.mapM f >>= fun bs => Pure.pure (b :: bs)).Grows := fun b =>
      .bind (.mapM hgrows) fun bs => .pure (b :: bs)
    rcases List.mem_cons.mp ha with rfl | ha
    · exact ⟨s, h.first hrest⟩
    · exact ih hgrows ((h.rest hgrow rfl).first fun bs => .pure _) ha

end Does

/-! ## Two runs -/

/-- The first work in the first run and the second work in the second run return related values and
ask for the same origins. -/
structure Sim (c : Correspondence) (R : α → α' → Prop) (work : Work α) (work' : Work α') :
    Prop where
  grows : work.Grows
  grows' : work'.Grows
  related {s s' : Session} (h : Between c.lo c.hi work s) (h' : Between c.lo' c.hi' work' s') :
    ∃ a a' asked, R a a' ∧ Does c.lo c.hi work a asked ∧ Does c.lo' c.hi' work' a' asked

namespace Sim

variable {c : Correspondence} {R : α → α' → Prop} {Q : β → β' → Prop} {work : Work α}
  {work' : Work α'} {next : α → Work β} {next' : α' → Work β'}

theorem pure {a : α} {a' : α'} (h : R a a') : Sim c R (pure a : Work α) (pure a' : Work α') where
  grows := .pure a
  grows' := .pure a'
  related _ _ := ⟨a, a', _, h, .pure a, .pure a'⟩

/-- Runs from sessions with the same origins return related values and end with the same origins. -/
theorem run (h : Sim c R work work') {s s' : Session} (hs : Between c.lo c.hi work s)
    (hs' : Between c.lo' c.hi' work' s') (hperm : s.symbols.origins.Perm s'.symbols.origins) :
    R (work.run s).1 (work'.run s').1 ∧
      (work.run s).2.symbols.origins.Perm (work'.run s').2.symbols.origins := by
  obtain ⟨a, a', asked, hrel, hdoes, hdoes'⟩ := h.related hs hs'
  refine ⟨by rwa [hdoes.value hs, hdoes'.value hs'], ?_⟩
  refine (List.perm_ext_iff_of_nodup (SymbolTable.nodup_origins _)
    (SymbolTable.nodup_origins _)).mpr fun origin => ?_
  rw [hdoes.mem_iff hs, hdoes'.mem_iff hs', hperm.mem_iff]

theorem mono {R' : α → α' → Prop} (h : Sim c R work work') (himp : ∀ a a', R a a' → R' a a') :
    Sim c R' work work' where
  grows := h.grows
  grows' := h.grows'
  related hs hs' := by
    obtain ⟨a, a', asked, hrel, hdoes, hdoes'⟩ := h.related hs hs'
    exact ⟨a, a', asked, himp _ _ hrel, hdoes, hdoes'⟩

theorem bind_of_grows (first : Sim c R work work') (hgrows : ∀ a, (next a).Grows)
    (hgrows' : ∀ a, (next' a).Grows) (rest : ∀ a a', R a a' → Sim c Q (next a) (next' a')) :
    Sim c Q (work >>= next) (work' >>= next') where
  grows := .bind first.grows hgrows
  grows' := .bind first.grows' hgrows'
  related hs hs' := by
    obtain ⟨a, a', asked, hrel, hdoes, hdoes'⟩ :=
      first.related (hs.first hgrows) (hs'.first hgrows')
    have hrest := hs.rest first.grows (hdoes.value (hs.first hgrows))
    have hrest' := hs'.rest first.grows' (hdoes'.value (hs'.first hgrows'))
    obtain ⟨b, b', asked', hrel', hnext, hnext'⟩ := (rest a a' hrel).related hrest hrest'
    exact ⟨b, b', _, hrel', hdoes.bind hnext first.grows hgrows,
      hdoes'.bind hnext' first.grows' hgrows'⟩

/-- Work after a value that the second run has the image of. The images are all values, so it is
known that the rest only adds symbols. -/
theorem bind {g : α → α'} (hg : g.Surjective) (first : Sim c (g · = ·) work work')
    (rest : ∀ a, Sim c Q (next a) (next' (g a))) : Sim c Q (work >>= next) (work' >>= next') := by
  refine first.bind_of_grows (fun a => (rest a).grows) (fun a' => ?_) ?_
  · obtain ⟨a, rfl⟩ := hg a'
    exact (rest a).grows'
  · rintro a _ rfl
    exact rest a

/-- Work that ends with a value made of what its first part returns. -/
theorem bind_pure {k : α → β} {k' : α' → β'} (first : Sim c R work work')
    (hk : ∀ a a', R a a' → Q (k a) (k' a')) :
    Sim c Q (work >>= fun a => Pure.pure (k a)) (work' >>= fun a' => Pure.pure (k' a')) :=
  first.bind_of_grows (fun a => .pure (k a)) (fun a' => .pure (k' a')) fun a a' hrel =>
    .pure (hk a a' hrel)

/-- What is known of the values of the first run may be used. -/
theorem and_yields {post : α → Prop} (h : Sim c R work work') (hpost : Yields c.lo c.hi work post) :
    Sim c (fun a a' => R a a' ∧ post a) work work' where
  grows := h.grows
  grows' := h.grows'
  related {s _} hs hs' := by
    obtain ⟨a, a', asked, hrel, hdoes, hdoes'⟩ := h.related hs hs'
    have ha := hpost.holds hs.after hs.before
    rw [hdoes.value hs] at ha
    exact ⟨a, a', asked, ⟨hrel, ha⟩, hdoes, hdoes'⟩

/-- Work on the entries of a list, in the second run in another order. -/
theorem mapM_perm [Inhabited β] [Inhabited β'] {f : α → Work β} {f' : α → Work β'} {as as' : List α}
    (hperm : as.Perm as') (h : ∀ a ∈ as, Sim c Q (f a) (f' a)) :
    Sim c (fun bs bs' => ∃ g g', (∀ a ∈ as, Q (g a) (g' a)) ∧ bs = as.map g ∧ bs' = as'.map g')
      (as.mapM f) (as'.mapM f') := by
  have hgrows : ∀ a ∈ as, (f a).Grows := fun a ha => (h a ha).grows
  have hgrows' : ∀ a ∈ as', (f' a).Grows := fun a ha => (h a (hperm.mem_iff.mpr ha)).grows'
  refine ⟨.mapM hgrows, .mapM hgrows', fun hs hs' => ?_⟩
  have heach : ∀ a ∈ as, ∃ b b' asked, Q b b' ∧ Does c.lo c.hi (f a) b asked ∧
      Does c.lo' c.hi' (f' a) b' asked := by
    intro a ha
    obtain ⟨s, hs⟩ := exists_between_of_mapM hgrows hs ha
    obtain ⟨s', hs'⟩ := exists_between_of_mapM hgrows' hs' (hperm.mem_iff.mp ha)
    exact (h a ha).related hs hs'
  choose! g g' asked hrel hdoes hdoes' using heach
  refine ⟨as.map g, as'.map g', _, ⟨g, g', hrel, rfl, rfl⟩, .mapM hdoes hgrows, ?_⟩
  have hmapM : Does c.lo' c.hi' (as'.mapM f') (as'.map g') _ :=
    .mapM (fun a ha => hdoes' a (hperm.mem_iff.mpr ha)) hgrows'
  exact hmapM.congr fun origin => exists_congr fun a => and_congr_left fun _ => hperm.mem_iff.symm

/-- Work on the entries of a list, with the same images in both runs. -/
theorem mapM [Inhabited β] [Inhabited β'] {f : α → Work β} {f' : α → Work β'} {g : β → β'}
    {as : List α} (h : ∀ a ∈ as, Sim c (g · = ·) (f a) (f' a)) :
    Sim c (List.map g · = ·) (as.mapM f) (as.mapM f') := by
  refine (mapM_perm (.refl as) h).mono ?_
  rintro _ _ ⟨k, k', hk, rfl, rfl⟩
  rw [List.map_map]
  exact List.map_congr_left hk

end Sim

/-! ## The parts that work is made of -/

/-- Work that leaves the symbols alone. -/
def Quiet (work : Work Unit) : Prop :=
  ∀ s : Session, (work.run s).2.symbols = s.symbols

theorem quiet_report (level : Level) (component : Component) (message : String) :
    (report level component message).Quiet := fun _ => rfl

theorem quiet_warn (warning : Warning) : (warn warning).Quiet := fun _ => rfl

theorem quiet_forM {f : α → Work Unit} {as : List α} (h : ∀ a, (f a).Quiet) :
    (as.forM f).Quiet := by
  induction as with
  | nil => exact fun _ => rfl
  | cons a as ih =>
    intro s
    exact (ih ((f a).run s).2).trans (h a s)

section Parts

variable {c : Correspondence} {R : α → α' → Prop} {work : Work α} {work' : Work α'}

theorem Quiet.does {lo hi : SymbolTable} {work : Work Unit} (h : work.Quiet) :
    Does lo hi work () fun _ => False where
  value _ := rfl
  mem_iff {s} _ _ := by rw [h s, or_false]

theorem Quiet.grows {work : Work Unit} (h : work.Quiet) : work.Grows := fun s => by rw [h s]

/-- Messages do not matter, not even how many there are. -/
theorem Sim.after_quiet {quiet quiet' : Work Unit} (hquiet : quiet.Quiet) (hquiet' : quiet'.Quiet)
    (h : Sim c R work work') :
    Sim c R (quiet >>= fun _ => work) (quiet' >>= fun _ => work') := by
  have hfirst : Sim c (fun _ _ => True) quiet quiet' :=
    ⟨hquiet.grows, hquiet'.grows, fun _ _ => ⟨(), (), _, trivial, hquiet.does, hquiet'.does⟩⟩
  exact hfirst.bind_of_grows (fun _ => h.grows) (fun _ => h.grows') fun _ _ _ => h

/-- Work in a span is run from the same symbols, without earlier messages. -/
theorem Between.of_during {lo hi : SymbolTable} {span : Span} {s : Session}
    (h : Between lo hi (Work.during span work) s) : Between lo hi work { s with events := [] } where
  after := h.after
  before := h.before

theorem Does.during {lo hi : SymbolTable} {a : α} {asked : Origin → Prop} (span : Span)
    (h : Does lo hi work a asked) : Does lo hi (Work.during span work) a asked where
  value hs := h.value hs.of_during
  mem_iff hs := h.mem_iff hs.of_during

theorem Sim.during (span span' : Span) (h : Sim c R work work') :
    Sim c R (Work.during span work) (Work.during span' work') where
  grows s := h.grows { s with events := [] }
  grows' s := h.grows' { s with events := [] }
  related hs hs' := by
    obtain ⟨a, a', asked, hrel, hdoes, hdoes'⟩ := h.related hs.of_during hs'.of_during
    exact ⟨a, a', asked, hrel, hdoes.during span, hdoes'.during span'⟩

end Parts

/-! ## Symbols -/

theorem does_symbol {lo hi : SymbolTable} {origin : Origin} {s : Symbol}
    (h : hi.find? origin = some s) : Does lo hi (symbol origin) s (· = origin) where
  value hs := Option.some.inj (((yields_symbol origin).holds hs.after hs.before).symm.trans h)
  mem_iff {s} _ {o} := by
    rw [(run_symbol origin s).2]
    exact SymbolTable.mem_origins_intern s.symbols origin o

variable {c : Correspondence}

/-- The symbols of an origin correspond. -/
theorem sim_symbol (origin : Origin) :
    Sim c (c.symbols · = ·) (symbol origin) (symbol origin) where
  grows := (@yields_symbol c.lo c.hi origin).grows
  grows' := (@yields_symbol c.lo c.hi origin).grows
  related hs hs' := by
    have hfound := (yields_symbol origin).holds hs.after hs.before
    have hfound' := (yields_symbol origin).holds hs'.after hs'.before
    exact ⟨_, _, _, c.carries hfound hfound', does_symbol hfound, does_symbol hfound'⟩

/-- Symbols that are derived from symbols of one origin correspond. -/
theorem sim_suffixedSymbol {base base' : Symbol} {origin : Origin}
    (h : c.lo.origin? base = some origin)
    (h' : c.lo'.origin? base' = some origin) (suffix : String) :
    Sim c (c.symbols · = ·) (suffixedSymbol base suffix) (suffixedSymbol base' suffix) := by
  have hrun : ∀ {lo : SymbolTable} {base : Symbol} {s : Session}, lo.origin? base = some origin →
      lo ≤ s.symbols →
      (suffixedSymbol base suffix).run s = (symbol (origin.addSuffix suffix)).run s := by
    intro lo base s hbase hle
    have hsuffixed : s.symbols.suffixedOrigin base suffix = origin.addSuffix suffix := by
      simp [SymbolTable.suffixedOrigin, SymbolTable.origin?_mono hle hbase]
    show (symbol (s.symbols.suffixedOrigin base suffix)).run s = _
    rw [hsuffixed]
  have hdoes : ∀ {lo hi : SymbolTable} {base a : Symbol} {asked : Origin → Prop},
      lo.origin? base = some origin → Does lo hi (symbol (origin.addSuffix suffix)) a asked →
      Does lo hi (suffixedSymbol base suffix) a asked := by
    intro lo hi base a asked hbase hdoes
    have hbetween : ∀ {s}, Between lo hi (suffixedSymbol base suffix) s →
        Between lo hi (symbol (origin.addSuffix suffix)) s :=
      fun hs => ⟨hs.after, hrun hbase hs.after ▸ hs.before⟩
    exact ⟨fun hs => by rw [hrun hbase hs.after]; exact hdoes.value (hbetween hs),
      fun hs => by rw [hrun hbase hs.after]; exact hdoes.mem_iff (hbetween hs)⟩
  refine ⟨(@yields_suffixedSymbol c.lo c.hi base suffix).grows,
    (@yields_suffixedSymbol c.lo c.hi base' suffix).grows, fun hs hs' => ?_⟩
  obtain ⟨a, a', asked, hrel, ha, ha'⟩ := (sim_symbol (c := c) (origin.addSuffix suffix)).related
    ⟨hs.after, hrun h hs.after ▸ hs.before⟩ ⟨hs'.after, hrun h' hs'.after ▸ hs'.before⟩
  exact ⟨a, a', asked, hrel, hdoes h ha, hdoes h' ha'⟩

/-- A symbol that is derived from one that was just issued is the symbol of the longer origin. -/
theorem symbol_bind_suffixedSymbol (origin : Origin) (suffix : String)
    (k : Symbol → Symbol → Work α) :
    (symbol origin >>= fun base => suffixedSymbol base suffix >>= k base) =
      symbol origin >>= fun base => symbol (origin.addSuffix suffix) >>= k base := by
  funext s
  have horigin := origin?_run_symbol origin s
  have hsuffixed :
      ((symbol origin).run s).2.symbols.suffixedOrigin ((symbol origin).run s).1 suffix =
      origin.addSuffix suffix := by
    simp [SymbolTable.suffixedOrigin, horigin]
  show (symbol
    (((symbol origin).run s).2.symbols.suffixedOrigin ((symbol origin).run s).1 suffix) >>=
    k ((symbol origin).run s).1).run ((symbol origin).run s).2 = _
  rw [hsuffixed]
  rfl

end Work

end Typings
