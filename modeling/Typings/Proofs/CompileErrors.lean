import Typings.Proofs.Compile
import Typings.Proofs.Model.Order
import Typings.Proofs.Pulls
import Typings.Proofs.Symbol.Names

/-!
# Errors of a compilation

A compilation can fail in three ways: on its settings, on classes that pull from each other in a
cycle, and on names. What a graph leaves undeclared or what cannot be mapped is never an error.

## Main definitions

* `SymbolTable.Clash`: two of some symbols have one name.
* `SourceGraph.PullsByName`: one class pulls from another one, as the graph says it.
* `NamesClash`: the model of a run cannot be named.

## Main results

* `SymbolTable.exists_resolve_iff`: names can be resolved unless two entities have one name.
* `finish_cases`: a model fails on a name exactly if names clash.
* `compile_result_iff`: when a compilation fails with which error, and when it succeeds.
-/

namespace Typings

open Relation

/-! ## Names that clash -/

theorem Origin.claim?_eq_some_iff {policy : NamingPolicy} {origin : Origin}
    {claim : String × String} :
    origin.claim? policy = some claim ↔
      ∃ name suffix, origin = .entity name suffix ∧
        (origin.fullName policy, name ++ suffix) = claim := by
  cases origin with
  | entity name suffix => simp [Origin.claim?, Origin.fullName]
  | synthetic name => simp [Origin.claim?]

namespace SymbolTable

variable {table : SymbolTable} {policy : NamingPolicy} {names : Names}

/-- The dotted name that a policy gives to a symbol, if the table issued it. -/
def finalName? (table : SymbolTable) (policy : NamingPolicy) (s : Symbol) : Option String :=
  (table.origin? s).map (·.fullName policy)

def IsEntity (table : SymbolTable) (s : Symbol) : Prop :=
  ∃ name suffix, table.origin? s = some (.entity name suffix)

/-- Whether two of the given symbols have one name. -/
def Clash (table : SymbolTable) (policy : NamingPolicy) (among : Symbol → Prop) : Prop :=
  ∃ s s', s ≠ s' ∧ among s ∧ among s' ∧
    ∃ name, table.finalName? policy s = some name ∧ table.finalName? policy s' = some name

/-- The names of a table can be resolved if no two entities have one name. -/
theorem exists_resolve_iff :
    (∃ names, table.resolve policy = .ok names) ↔ ¬table.Clash policy table.IsEntity := by
  have hunique : (∃ names, table.resolve policy = .ok names) ↔
      ((table.origins.filterMap (·.claim? policy)).map (·.1)).Nodup := by
    rw [← firstShared?_claimants_eq_none]
    unfold resolve
    split
    case h_1 hsome => exact iff_of_false (fun ⟨_, h⟩ => nomatch h) (by rw [hsome]; exact nofun)
    case h_2 hnone => exact iff_of_true ⟨_, rfl⟩ hnone
  rw [hunique, List.Nodup, List.pairwise_map, List.pairwise_filterMap, List.pairwise_iff_getElem]
  constructor
  · rintro hpairs ⟨s, s', hne, hs, hs', full, hfull, hfull'⟩
    wlog hlt : s.id < s'.id generalizing s s'
    · have hid : s.id ≠ s'.id := fun hid => hne (congrArg Symbol.mk hid)
      exact this s' s hne.symm hs' hs hfull' hfull (by omega)
    obtain ⟨name, suffix, hs⟩ := hs
    obtain ⟨name', suffix', hs'⟩ := hs'
    rw [finalName?, hs] at hfull
    rw [finalName?, hs'] at hfull'
    obtain ⟨hid, hget⟩ := List.getElem?_eq_some_iff.mp hs
    obtain ⟨hid', hget'⟩ := List.getElem?_eq_some_iff.mp hs'
    refine hpairs s.id s'.id hid hid' hlt _ (by rw [hget]; rfl) _ (by rw [hget']; rfl) ?_
    exact Option.some.inj (hfull.trans hfull'.symm)
  · intro hclash i j hi hj hij claim hclaim claim' hclaim' heq
    obtain ⟨name, suffix, horigin, rfl⟩ := Origin.claim?_eq_some_iff.mp hclaim
    obtain ⟨name', suffix', horigin', rfl⟩ := Origin.claim?_eq_some_iff.mp hclaim'
    have hi' : table.origin? ⟨i⟩ = some table.origins[i] := List.getElem?_eq_getElem hi
    have hj' : table.origin? ⟨j⟩ = some table.origins[j] := List.getElem?_eq_getElem hj
    refine hclash ⟨⟨i⟩, ⟨j⟩, fun h => hij.ne (congrArg Symbol.id h), ⟨name, suffix, hi'.trans ?_⟩,
      ⟨name', suffix', hj'.trans ?_⟩, _, congrArg (Option.map _) hi', ?_⟩
    · rw [horigin]
    · rw [horigin']
    · rw [finalName?, hj']
      exact congrArg some heq.symm

theorem fullName?_of_resolve (h : table.resolve policy = .ok names) (s : Symbol) :
    names.fullName? s = table.finalName? policy s := by
  rw [Names.fullName?, name?_of_resolve h, Option.map_map, finalName?]
  congr 1
  funext origin
  exact ResolvedName.fullName_ofFullName _

/-- Symbols have a conflict if two of them have one name. -/
theorem conflict?_eq_none_iff_of_resolve (h : table.resolve policy = .ok names)
    (symbols : List Symbol) :
    names.conflict? symbols = none ↔ ¬table.Clash policy (· ∈ symbols) := by
  rw [Names.conflict?_eq_none_iff]
  simp only [fullName?_of_resolve h]
  constructor
  · rintro hsame ⟨s, s', hne, hs, hs', name, hname, hname'⟩
    exact hne (hsame s hs s' hs' name hname hname')
  · intro hclash s hs s' hs' name hname hname'
    by_contra hne
    exact hclash ⟨s, s', hne, hs, hs', name, hname, hname'⟩

end SymbolTable

/-! ## Cycles of pulls -/

theorem SourceType.nullableName?_eq_some_iff {type : SourceType} {b : String} :
    type.nullableName? = some b ↔
      ∃ depth args, type = SourceType.nullable^[depth] (.named b args) := by
  constructor
  · fun_induction SourceType.nullableName? type with
    | case1 inner ih =>
      intro h
      obtain ⟨depth, args, rfl⟩ := ih h
      exact ⟨depth + 1, args, (Function.iterate_succ_apply' _ _ _).symm⟩
    | case2 name args =>
      intro h
      exact ⟨0, args, congrArg (SourceType.named · args) (Option.some.inj h)⟩
    | case3 => exact nofun
  · rintro ⟨depth, args, rfl⟩
    induction depth with
    | zero => rfl
    | succ depth ih => rwa [Function.iterate_succ_apply']

namespace SourceGraph

variable {graph : SourceGraph}

/-- Whether a class of one name has a pulling property whose type, under any number of `nullable`,
is named as a declared class, the same one or another. -/
def PullsByName (graph : SourceGraph) (a b : String) : Prop :=
  (∃ c ∈ graph.classes, c.name = a ∧ ∃ p ∈ c.properties, p.pull.isSome ∧
    ∃ depth args, p.type = SourceType.nullable^[depth] (.named b args)) ∧
  ∃ c ∈ graph.classes, c.name = b

theorem pullsFrom_iff {a b : String} : graph.PullsFrom a b ↔ graph.PullsByName a b := by
  have htarget : ∀ p : SourceProperty, pullTarget? p = some b ↔ p.pull.isSome ∧
      ∃ depth args, p.type = SourceType.nullable^[depth] (.named b args) := by
    intro p
    rw [pullTarget?, Option.ite_none_right_eq_some, SourceType.nullableName?_eq_some_iff]
  simp only [PullsFrom, PullsByName, htarget, List.mem_map]
  constructor
  · rintro ⟨c, hc, hname, hdeclared, hpull⟩
    exact ⟨⟨c, hc, hname, hpull⟩, hdeclared⟩
  · rintro ⟨⟨c, hc, hname, hpull⟩, hdeclared⟩
    exact ⟨c, hc, hname, hdeclared, hpull⟩

/-- A cycle is found if some class pulls from itself, whether at once or through others. -/
theorem exists_pullCycle?_iff :
    (∃ cycle, graph.pullCycle? = some cycle) ↔ ∃ a, TransGen graph.PullsByName a a := by
  have hedge : graph.pullGraph.Edge = graph.PullsByName := by
    funext a b
    rw [edge_pullGraph_iff, pullsFrom_iff]
  rw [← Option.isSome_iff_exists, ← Option.ne_none_iff_isSome, ne_eq, pullCycle?_eq_none_iff,
    Digraph.Acyclic, hedge]
  simp only [not_forall, not_not]

end SourceGraph

/-! ## Errors -/

/-- Whether the model that a run leads to cannot be named: two entities have one name, or two
declarations. -/
def NamesClash (policy : NamingPolicy) (run : Model × Session) : Prop :=
  run.2.symbols.Clash policy run.2.symbols.IsEntity ∨
    run.2.symbols.Clash policy (· ∈ run.1.declaredSymbols)

/-- A model that cannot be named fails on a name, and any other one is finished. -/
theorem finish_cases (settings : Settings) (run : Model × Session) :
    NamesClash settings.naming run ∧
        (∃ conflict, ((finish settings run.1).run.run run.2).1 = .error (.nameConflict conflict)) ∨
      ¬NamesClash settings.naming run ∧
        ∃ out, ((finish settings run.1).run.run run.2).1 = .ok out := by
  obtain ⟨warnings, hfinish⟩ := exists_fst_finish (s := run.2) settings run.1
  rw [hfinish]
  cases hresolve : run.2.symbols.resolve settings.naming with
  | error conflict =>
    have hentities : run.2.symbols.Clash settings.naming run.2.symbols.IsEntity := by
      by_contra hclash
      obtain ⟨names, hnames⟩ := SymbolTable.exists_resolve_iff.mpr hclash
      exact nomatch hresolve.symm.trans hnames
    exact .inl ⟨.inl hentities, conflict, rfl⟩
  | ok names =>
    have hentities := SymbolTable.exists_resolve_iff.mp ⟨names, hresolve⟩
    have hdeclared := SymbolTable.conflict?_eq_none_iff_of_resolve hresolve
      ((run.1.order names settings.sortMode).declarations.map (·.symbol))
    simp only [(run.1.perm_symbols_order names settings.sortMode).mem_iff] at hdeclared
    dsimp only
    split
    case h_1 conflict hconflict =>
      rw [hconflict] at hdeclared
      exact .inl ⟨.inr (not_not.mp fun h => nomatch hdeclared.mpr h), conflict, rfl⟩
    case h_2 hnone => exact .inr ⟨not_or.mpr ⟨hentities, hdeclared.mp hnone⟩, _, rfl⟩

/-- A compilation fails exactly on settings that are faulty, else on classes that pull from each
other in a cycle, else on names that clash. Nothing else that a graph can hold makes it fail. -/
theorem compile_result_iff (graph : SourceGraph) (settings : Settings) :
    (∀ fault, compile graph settings = .error (.invalidSettings fault) ↔
      settings.fault? = some fault) ∧
    ((∃ cycle, compile graph settings = .error (.pullCycle cycle)) ↔
      settings.fault? = none ∧ ∃ a, TransGen graph.PullsByName a a) ∧
    ((∃ conflict, compile graph settings = .error (.nameConflict conflict)) ↔
      settings.fault? = none ∧ (¬∃ a, TransGen graph.PullsByName a a) ∧
        NamesClash settings.naming (graph.builder settings).lateRun) ∧
    ((∃ out, compile graph settings = .ok out) ↔
      settings.fault? = none ∧ (¬∃ a, TransGen graph.PullsByName a a) ∧
        ¬NamesClash settings.naming (graph.builder settings).lateRun) := by
  have hcompile := fst_compileWith (.builtIn settings graph) graph settings
  rw [← SourceGraph.exists_pullCycle?_iff]
  cases hfault : settings.fault? with
  | some fault =>
    have hresult : compile graph settings = .error (.invalidSettings fault) := by
      rw [compile, runCompile, hcompile, hfault]
    rw [hresult]
    simp
  | none =>
    rw [hfault] at hcompile
    cases hcycle : graph.pullCycle? with
    | some cycle =>
      have hresult : compile graph settings = .error (.pullCycle cycle) := by
        rw [compile, runCompile, hcompile, hcycle]
      rw [hresult]
      simp
    | none =>
      rw [hcycle] at hcompile
      rcases finish_cases settings (graph.builder settings).lateRun with
        ⟨hclash, conflict, hfinish⟩ | ⟨hclash, out, hfinish⟩
      · have hresult : compile graph settings = .error (.nameConflict conflict) :=
          hcompile.trans hfinish
        rw [hresult]
        simp [hclash]
      · have hresult : compile graph settings = .ok out := hcompile.trans hfinish
        rw [hresult]
        simp [hclash]

end Typings
