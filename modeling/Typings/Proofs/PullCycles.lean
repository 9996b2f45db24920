import Mathlib
import Typings.Model.OfGraph
import Typings.Proofs.Pulls

/-!
# What a reported cycle of pulls is

Classes that pull from each other in a cycle are reported: one class of a cycle, the classes met on
a walk along pulls from it, and the name of a pull on that walk. In each class the walk takes the
latest pull that leads to a class entangled with the first one, so it has no choice, and it ends
where a class comes again. This class need not be the first one: where cycles share a class, the
walk may run into one that passes the first class by.

## Main definitions

* `SourceGraph.Entangled`: two classes reach each other along pulls.
* `SourceGraph.IsLatestPull`, `SourceGraph.Continues`: the pull that a walk takes, and its step.
* `SourceGraph.Walks`: the pulls of a walk, up to the first class that comes again.
* `PullCycle.Leads`: a report of pulls that lead into a cycle.
* `PullCycle.Closes`: a report of pulls that lead from a class back to it.

## Main results

* `SourceGraph.Walks.returns_iff`: a walk ends at its first class exactly if the latest pulls lead
  back to it.
* `Builder.closes_pullCycle_iff`: a report leads into a cycle, and when it leads back to its class.
-/

namespace Typings

open Relation

namespace SourceGraph

variable (graph : SourceGraph)

/-- Whether two classes reach each other along pulls. -/
def Entangled (a b : String) : Prop :=
  ReflTransGen graph.PullsFrom a b ∧ ReflTransGen graph.PullsFrom b a

/-- Whether a pull leads to a class entangled with the given one and is the latest of its class that
does so. -/
def IsLatestPull (start : String) (e : PullEdge) : Prop :=
  ∃ before after, graph.pullEdges = before ++ e :: after ∧ graph.Entangled start e.target ∧
    ∀ e' ∈ after, e'.source = e.source → ¬graph.Entangled start e'.target

/-- Whether the latest pull of the one class leads to the other one. -/
def Continues (start a b : String) : Prop :=
  ∃ e, graph.IsLatestPull start e ∧ e.source = a ∧ e.target = b

/-- The pulls of a walk from one class on: it takes the latest pulls, up to a class that is among
the given ones or was met before. -/
inductive Walks (start : String) : List String → String → List PullEdge → Prop
  | stop {seen : List String} {e : PullEdge} :
      graph.IsLatestPull start e → e.target ∈ seen → Walks start seen e.source [e]
  | step {seen : List String} {e : PullEdge} {steps : List PullEdge} :
      graph.IsLatestPull start e → e.target ∉ seen →
      Walks start (e.target :: seen) e.target steps → Walks start seen e.source (e :: steps)

variable {graph} {start : String}

/-! ## The latest pulls -/

theorem mem_component_pullGraph {a : String} :
    a ∈ graph.pullGraph.component start ↔ graph.Entangled start a := by
  rw [Digraph.mem_component_iff, edge_pullGraph, Entangled]

/-- The pulls are searched from the end, so the one that is found is the latest. -/
theorem find?_pullEdges_eq_some_iff {current : String} {e : PullEdge} :
    (graph.pullEdges.reverse.find? fun e =>
        e.source == current && (graph.pullGraph.component start).contains e.target) = some e ↔
      graph.IsLatestPull start e ∧ e.source = current := by
  rw [List.find?_eq_some_iff_append]
  simp only [Bool.and_eq_true, beq_iff_eq, List.contains_iff_mem, mem_component_pullGraph,
    Bool.not_eq_true', Bool.and_eq_false_imp]
  constructor
  · rintro ⟨⟨rfl, hentangled⟩, later, earlier, hsplit, hlater⟩
    refine ⟨⟨earlier.reverse, later.reverse, ?_, hentangled, ?_⟩, rfl⟩
    · rw [← List.reverse_reverse graph.pullEdges, hsplit]
      simp
    · intro e' he' hsource
      have hmissed := hlater e' (List.mem_reverse.mp he') hsource
      rwa [← Bool.not_eq_true, List.contains_iff_mem, mem_component_pullGraph] at hmissed
  · rintro ⟨⟨before, after, hsplit, hentangled, hlatest⟩, rfl⟩
    refine ⟨⟨rfl, hentangled⟩, after.reverse, before.reverse, by rw [hsplit]; simp, ?_⟩
    intro e' he' hsource
    rw [← Bool.not_eq_true, List.contains_iff_mem, mem_component_pullGraph]
    exact hlatest e' (List.mem_reverse.mp he') hsource

namespace IsLatestPull

variable {e e' : PullEdge}

theorem entangled (h : graph.IsLatestPull start e) : graph.Entangled start e.target := by
  obtain ⟨-, -, -, hentangled, -⟩ := h
  exact hentangled

theorem pullsBy (h : graph.IsLatestPull start e) :
    graph.PullsBy e.property e.source e.target := by
  obtain ⟨before, after, hsplit, -⟩ := h
  exact mem_pullEdges_iff.mp (by rw [hsplit]; simp)

theorem eq_of_source (h : graph.IsLatestPull start e) (h' : graph.IsLatestPull start e')
    (hsource : e.source = e'.source) : e = e' := by
  have hfind := find?_pullEdges_eq_some_iff.mpr ⟨h, hsource⟩
  have hfind' := find?_pullEdges_eq_some_iff.mpr ⟨h', rfl⟩
  exact Option.some.inj (hfind.symm.trans hfind')

end IsLatestPull

theorem Continues.pullsFrom {a b : String} (h : graph.Continues start a b) :
    graph.PullsFrom a b := by
  obtain ⟨e, hlatest, rfl, rfl⟩ := h
  exact hlatest.pullsBy.pullsFrom

/-- A class on a cycle has a pull that stays among the classes entangled with it, and so has each of
these. -/
theorem exists_isLatestPull (hcyclic : TransGen graph.PullsFrom start start) {a : String}
    (ha : graph.Entangled start a) : ∃ e, graph.IsLatestPull start e ∧ e.source = a := by
  have hback : TransGen graph.PullsFrom a start := hcyclic.trans_right ha.2
  obtain ⟨b, hpulls, hrest⟩ := TransGen.head'_iff.mp hback
  have hb : graph.Entangled start b := ⟨ha.1.tail hpulls, hrest⟩
  obtain ⟨e, he, hsource, htarget⟩ := exists_pullEdge_iff.mpr hpulls
  have hfound : (graph.pullEdges.reverse.find? fun e =>
      e.source == a && (graph.pullGraph.component start).contains e.target).isSome := by
    refine List.find?_isSome.mpr ⟨e, List.mem_reverse.mpr he, ?_⟩
    simpa [hsource, htarget] using mem_component_pullGraph.mpr hb
  obtain ⟨latest, hlatest⟩ := Option.isSome_iff_exists.mp hfound
  exact ⟨latest, find?_pullEdges_eq_some_iff.mp hlatest⟩

/-! ## Walks -/

theorem walks_followPulls (hcyclic : TransGen graph.PullsFrom start start) {seen : List String}
    {current : String} (hcurrent : graph.Entangled start current) :
    graph.Walks start seen current
      (followPulls graph.pullEdges (graph.pullGraph.component start) seen current) := by
  fun_induction followPulls graph.pullEdges (graph.pullGraph.component start) seen current with
  | case1 seen current hnone =>
    obtain ⟨e, hlatest⟩ := exists_isLatestPull hcyclic hcurrent
    rw [List.unattach_reverse, List.unattach_attach,
      find?_pullEdges_eq_some_iff.mpr hlatest] at hnone
    cases hnone
  | case2 seen current e hfind hagain ih =>
    rw [List.unattach_reverse, List.unattach_attach] at hfind
    rw [hfind]
    dsimp only
    rw [dif_pos hagain]
    obtain ⟨hlatest, rfl⟩ := find?_pullEdges_eq_some_iff.mp hfind
    exact .step hlatest hagain.2 (ih hlatest.entangled)
  | case3 seen current e hfind hagain =>
    rw [List.unattach_reverse, List.unattach_attach] at hfind
    rw [hfind]
    dsimp only
    rw [dif_neg hagain]
    obtain ⟨hlatest, rfl⟩ := find?_pullEdges_eq_some_iff.mp hfind
    refine .stop hlatest (Decidable.not_not.mp fun hnew => hagain ⟨?_, hnew⟩)
    exact mem_component_pullGraph.mpr hlatest.entangled

namespace Walks

variable {seen : List String} {current : String} {steps : List PullEdge}
  (h : graph.Walks start seen current steps)

include h

theorem isLatestPull {e : PullEdge} (he : e ∈ steps) : graph.IsLatestPull start e := by
  induction h with
  | stop hlatest =>
    obtain rfl := List.mem_singleton.mp he
    exact hlatest
  | step hlatest _ _ ih =>
    rcases List.mem_cons.mp he with rfl | he
    · exact hlatest
    · exact ih he

theorem isChain : (current :: steps.map (·.target)).IsChain (graph.Continues start) := by
  induction h with
  | stop hlatest => exact List.isChain_pair.mpr ⟨_, hlatest, rfl, rfl⟩
  | step hlatest _ _ ih => exact List.isChain_cons_cons.mpr ⟨⟨_, hlatest, rfl, rfl⟩, ih⟩

theorem exists_cons : ∃ e rest, steps = e :: rest ∧ e.source = current := by
  cases h with
  | stop => exact ⟨_, _, rfl, rfl⟩
  | step => exact ⟨_, _, rfl, rfl⟩

/-- A pull of a walk leads from one class of the walk to the next one. -/
theorem isInfix {e : PullEdge} (he : e ∈ steps) :
    [e.source, e.target] <:+: current :: steps.map (·.target) := by
  induction h with
  | stop =>
    obtain rfl := List.mem_singleton.mp he
    exact List.infix_rfl
  | step _ _ _ ih =>
    rcases List.mem_cons.mp he with rfl | he
    · exact ⟨[], _, rfl⟩
    · exact (ih he).trans (List.suffix_cons _ _).isInfix

/-- Only the last class of a walk is not left again. -/
theorem map_source : steps.map (·.source) = (current :: steps.map (·.target)).dropLast := by
  induction h with
  | stop => rfl
  | step _ _ _ ih => rw [List.map_cons, ih, List.map_cons, List.dropLast_cons_cons]

/-- The classes of a walk are new up to the last one, which is not. -/
theorem exists_last :
    ∃ met last, steps.map (·.target) = met ++ [last] ∧ met.Nodup ∧ (∀ a ∈ met, a ∉ seen) ∧
      (last ∈ seen ∨ last ∈ met) := by
  induction h with
  | @stop seen e _ hseen => exact ⟨[], e.target, rfl, List.nodup_nil, by simp, .inl hseen⟩
  | @step seen e steps _ hnew _ ih =>
    obtain ⟨met, last, hmet, hnodup, hfresh, hlast⟩ := ih
    refine ⟨e.target :: met, last, by rw [List.map_cons, hmet]; rfl, ?_, ?_, ?_⟩
    · exact List.nodup_cons.mpr ⟨fun hmem => hfresh _ hmem List.mem_cons_self, hnodup⟩
    · intro a ha
      rcases List.mem_cons.mp ha with rfl | ha
      · exact hnew
      · exact fun hmem => hfresh a ha (List.mem_cons_of_mem _ hmem)
    · rcases hlast with hlast | hlast
      · rcases List.mem_cons.mp hlast with rfl | hlast
        · exact .inr List.mem_cons_self
        · exact .inl hlast
      · exact .inr (List.mem_cons_of_mem _ hlast)

theorem transGen {b : String} (hb : b ∈ steps.map (·.target)) :
    TransGen (graph.Continues start) current b := by
  induction h with
  | stop hlatest =>
    obtain rfl := List.mem_singleton.mp hb
    exact .single ⟨_, hlatest, rfl, rfl⟩
  | step hlatest _ _ ih =>
    rcases List.mem_cons.mp hb with rfl | hb
    · exact .single ⟨_, hlatest, rfl, rfl⟩
    · exact .head ⟨_, hlatest, rfl, rfl⟩ (ih hb)

/-- A walk that has ended in a class of its own has met all classes that it can reach. -/
theorem mem_of_transGen {met : List String} {last b : String}
    (htargets : steps.map (·.target) = met ++ [last]) (hlast : last ∈ current :: met)
    (hb : TransGen (graph.Continues start) current b) : b ∈ met ++ [last] := by
  have hclosed : ∀ {a b}, a ∈ current :: met → graph.Continues start a b → b ∈ met ++ [last] := by
    rintro a b ha ⟨e, hlatest, rfl, rfl⟩
    have hsources : steps.map (·.source) = current :: met := by
      rw [h.map_source, htargets, ← List.cons_append, List.dropLast_concat]
    rw [← hsources] at ha
    obtain ⟨taken, htaken, hsource⟩ := List.mem_map.mp ha
    obtain rfl := (h.isLatestPull htaken).eq_of_source hlatest hsource
    rw [← htargets]
    exact List.mem_map_of_mem htaken
  induction hb with
  | single hstep => exact hclosed List.mem_cons_self hstep
  | tail _ hstep ih =>
    refine hclosed ?_ hstep
    rcases List.mem_append.mp ih with hmem | hmem
    · exact List.mem_cons_of_mem _ hmem
    · obtain rfl := List.mem_singleton.mp hmem
      exact hlast

omit h in
/-- A walk ends at its first class exactly if the latest pulls lead back to that class. -/
theorem returns_iff (h : graph.Walks start [start] start steps) :
    (start :: steps.map (·.target)).getLast? = some start ↔
      TransGen (graph.Continues start) start start := by
  obtain ⟨met, last, htargets, -, hfresh, hlast⟩ := h.exists_last
  have hfirst : start ∉ met := fun hmem => hfresh start hmem List.mem_cons_self
  rw [htargets, ← List.cons_append, List.getLast?_concat, Option.some.injEq]
  constructor
  · rintro rfl
    exact h.transGen (by rw [htargets]; simp)
  · intro hback
    have hmem := h.mem_of_transGen htargets (by simpa using hlast) hback
    rcases List.mem_append.mp hmem with hmem | hmem
    · exact absurd hmem hfirst
    · exact (List.mem_singleton.mp hmem).symm

end Walks

/-- A report is a walk from a class on a cycle, with the first name that a pull of the walk has. -/
theorem exists_walks_of_pullCycle? {report : PullCycle} (h : graph.pullCycle? = some report) :
    TransGen graph.PullsFrom report.declaration report.declaration ∧
      ∃ steps, graph.Walks report.declaration [report.declaration] report.declaration steps ∧
        report.property = ((steps.map (·.property)).find? (· ≠ "")).getD "" ∧
        report.cycle = report.declaration :: steps.map (·.target) := by
  unfold pullCycle? at h
  dsimp only at h
  split at h
  case h_1 => cases h
  case h_2 start hstart =>
    obtain rfl := Option.some.inj h
    have hcyclic := Digraph.transGen_of_cyclicNode? mem_predecessorsOf_pullEdges hstart
    rw [edge_pullGraph] at hcyclic
    exact ⟨hcyclic, _, walks_followPulls hcyclic ⟨.refl, .refl⟩, rfl, rfl⟩

end SourceGraph

/-! ## Reports -/

namespace PullCycle

/-- A report of pulls that lead from a class into a cycle, with the name of one of these pulls. -/
structure Leads (report : PullCycle) (graph : SourceGraph) : Prop where
  onCycle : TransGen graph.PullsFrom report.declaration report.declaration
  head?_eq : report.cycle.head? = some report.declaration
  isChain : report.cycle.IsChain graph.PullsFrom
  nodup : report.cycle.dropLast.Nodup
  loops : ∃ way a loop, report.cycle = way ++ a :: loop ++ [a]
  named : ∃ a b, [a, b] <:+: report.cycle ∧ graph.PullsBy report.property a b

/-- A report of pulls that lead from a class back to it, with the name of the first one. -/
structure Closes (report : PullCycle) (graph : SourceGraph) : Prop where
  two_le_length : 2 ≤ report.cycle.length
  head?_eq : report.cycle.head? = some report.declaration
  getLast?_eq : report.cycle.getLast? = some report.declaration
  isChain : report.cycle.IsChain graph.PullsFrom
  pullsBy : ∃ b, report.cycle[1]? = some b ∧ graph.PullsBy report.property report.declaration b

end PullCycle

/-- The first of some names that is not empty, or else the empty one, is among them. -/
theorem getD_find?_mem {names : List String} (hnames : names ≠ []) :
    (names.find? (· ≠ "")).getD "" ∈ names := by
  cases hfind : names.find? (· ≠ "") with
  | some name => exact List.mem_of_find?_eq_some hfind
  | none =>
    obtain ⟨name, hname⟩ := List.exists_mem_of_ne_nil names hnames
    have hempty : name = "" := by simpa using List.find?_eq_none.mp hfind name hname
    rwa [hempty] at hname

namespace SourceGraph.Walks

variable {graph : SourceGraph} {report : PullCycle} {steps : List PullEdge}

theorem leads
    (h : graph.Walks report.declaration [report.declaration] report.declaration steps)
    (hcyclic : TransGen graph.PullsFrom report.declaration report.declaration)
    (hproperty : report.property = ((steps.map (·.property)).find? (· ≠ "")).getD "")
    (hcycle : report.cycle = report.declaration :: steps.map (·.target)) : report.Leads graph := by
  obtain ⟨met, last, htargets, hnodup, hfresh, hlast⟩ := h.exists_last
  have hfirst : report.declaration ∉ met := fun hmem => hfresh _ hmem List.mem_cons_self
  have hends : report.cycle = report.declaration :: met ++ [last] := by
    rw [hcycle, htargets, List.cons_append]
  refine ⟨hcyclic, by rw [hcycle, List.head?_cons], ?_, ?_, ?_, ?_⟩
  · rw [hcycle]
    exact h.isChain.imp fun a b hstep => hstep.pullsFrom
  · rw [hends, List.dropLast_concat]
    exact List.nodup_cons.mpr ⟨hfirst, hnodup⟩
  · have hmem : last ∈ report.declaration :: met := by simpa using hlast
    obtain ⟨way, loop, hsplit⟩ := List.append_of_mem hmem
    exact ⟨way, last, loop, by rw [hends, hsplit]⟩
  · obtain ⟨e, rest, rfl, -⟩ := h.exists_cons
    have hmem : report.property ∈ (e :: rest).map (·.property) := by
      rw [hproperty]
      exact getD_find?_mem (by simp)
    obtain ⟨e', he', hname⟩ := List.mem_map.mp hmem
    refine ⟨e'.source, e'.target, by rw [hcycle]; exact h.isInfix he', ?_⟩
    rw [← hname]
    exact (h.isLatestPull he').pullsBy

/-- The reported name belongs to the first pull, except that a first pull without a name may be
reported under another name. -/
theorem exists_pullsBy_iff
    (h : graph.Walks report.declaration [report.declaration] report.declaration steps)
    (hproperty : report.property = ((steps.map (·.property)).find? (· ≠ "")).getD "")
    (hcycle : report.cycle = report.declaration :: steps.map (·.target)) :
    (∃ b, report.cycle[1]? = some b ∧ graph.PullsBy report.property report.declaration b) ↔
      ∀ e, graph.IsLatestPull report.declaration e → e.source = report.declaration →
        e.property = "" → graph.PullsBy report.property report.declaration e.target := by
  obtain ⟨first, rest, rfl, hsource⟩ := h.exists_cons
  have hfirst := h.isLatestPull List.mem_cons_self
  have hsecond : report.cycle[1]? = some first.target := by rw [hcycle]; rfl
  rw [hsecond]
  constructor
  · rintro ⟨b, hb, hpulls⟩ e hlatest he -
    obtain rfl := hlatest.eq_of_source hfirst (he.trans hsource.symm)
    rwa [Option.some.inj hb]
  · intro hunnamed
    refine ⟨first.target, rfl, ?_⟩
    by_cases hempty : first.property = ""
    · exact hunnamed first hfirst hsource hempty
    · have hname : report.property = first.property := by simp [hproperty, hempty]
      rw [hname, ← hsource]
      exact hfirst.pullsBy

end SourceGraph.Walks

/-- Classes that pull from each other in a cycle are reported with pulls that lead from a class into
a cycle. They lead back to that class exactly if its latest pulls do; the property is then one by
which the class pulls from the next one, unless the latest pull of the class has no name. -/
theorem Builder.closes_pullCycle_iff {builder : Builder} {session : Session} {report : PullCycle}
    (h : (builder.model.run.run session).1 = .error (.pullCycle report)) :
    report.Leads builder.graph ∧
      (report.Closes builder.graph ↔
        TransGen (builder.graph.Continues report.declaration) report.declaration
            report.declaration ∧
          ∀ e, builder.graph.IsLatestPull report.declaration e → e.source = report.declaration →
            e.property = "" →
              builder.graph.PullsBy report.property report.declaration e.target) := by
  have hreport : builder.graph.pullCycle? = some report := by
    unfold Builder.model at h
    split at h
    case h_1 cycle hcycle =>
      cases h
      exact hcycle
    case h_2 => cases h
  obtain ⟨hcyclic, steps, hwalks, hproperty, hcycle⟩ :=
    SourceGraph.exists_walks_of_pullCycle? hreport
  have hleads := hwalks.leads hcyclic hproperty hcycle
  rw [← hwalks.returns_iff, ← hcycle, ← hwalks.exists_pullsBy_iff hproperty hcycle]
  refine ⟨hleads, fun hcloses => ⟨hcloses.getLast?_eq, hcloses.pullsBy⟩, ?_⟩
  rintro ⟨hlast, hpulls⟩
  obtain ⟨way, a, loop, hloop⟩ := hleads.loops
  have hlength : 2 ≤ report.cycle.length := by
    rw [hloop, List.length_append, List.length_append, List.length_cons, List.length_singleton]
    omega
  exact ⟨hlength, hleads.head?_eq, hlast, hleads.isChain, hpulls⟩

/-- Two cycles that share a class. Its latest pull leads into the one that passes the class `B`
by. -/
def junction : SourceGraph where
  classes :=
    [{ name := "A"
       properties :=
         [{ name := "b", type := .named "B" [], pull := some {} },
          { name := "c", type := .named "C" [], pull := some {} }] },
      { name := "B", properties := [{ name := "a", type := .named "A" [], pull := some {} }] },
      { name := "C", properties := [{ name := "a", type := .named "A" [], pull := some {} }] }]

/-- What the report on `junction` says: from `B` to `A`, and around the cycle of `A` and `C`. -/
def junctionReport : PullCycle where
  declaration := "B"
  property := "a"
  cycle := ["B", "A", "C", "A"]

theorem not_closes_junction : (junction.classes.map (·.name)).Nodup ∧
    ((Builder.model ⟨junction, {}, .builtIn {} junction⟩).run.run {}).1 =
        .error (.pullCycle junctionReport) ∧
      junctionReport.Leads junction ∧ ¬junctionReport.Closes junction ∧
      ¬(TransGen (junction.Continues "B") "B" "B" ∧
        ∀ e, junction.IsLatestPull "B" e → e.source = "B" → e.property = "" →
          junction.PullsBy "a" "B" e.target) := by
  have hreport : ((Builder.model ⟨junction, {}, .builtIn {} junction⟩).run.run {}).1 =
      .error (.pullCycle junctionReport) := by cbv
  have hopen : ¬junctionReport.Closes junction := fun hcloses =>
    absurd hcloses.getLast?_eq (by decide)
  obtain ⟨hleads, hiff⟩ := Builder.closes_pullCycle_iff hreport
  exact ⟨by decide, hreport, hleads, hopen, fun hback => hopen (hiff.mpr hback)⟩

end Typings
