import Typings.Proofs.Simulation.Settled

/-!
# Two compilations

The compilations of two graphs that list the same classes and enums, in whatever order, end with
models that are alike and with tables that hold the same origins. The permutation of symbols is
fixed first, by the tables at the end; both parts of a compilation are then compared through it.

## Main definitions

* `Compilation.correspondence`: the tables of two compilations between building and naming.

## Main results

* `Compilation.alike_built`: the models that are built are alike.
* `Builder.exists_alike_runs`: the models at the end are alike.
-/

namespace Typings

open Work

namespace Compilation

variable {builder builder' : Builder} (first : Compilation builder) (second : Compilation builder')
  (symbols : Equiv.Perm Symbol)
  (carries : ∀ origin s s', first.table.find? origin = some s →
    second.table.find? origin = some s' → symbols s = s')

/-- The tables of two compilations between building and naming. -/
def correspondence : Correspondence where
  lo := first.early
  hi := first.table
  lo' := second.early
  hi' := second.table
  symbols := symbols
  carries := carries _ _ _

/-- The declarations that are built are made of different classes. -/
theorem ofClasses_built (hnames : builder.graph.declaredNames.Nodup)
    (hdeclared : builder.graph.declaredNames ⊆ builder'.graph.declaredNames) :
    OfClasses (first.correspondence second symbols carries) first.built.data where
  exists_isOf d hd := by
    obtain ⟨source, hsource, hbuilds⟩ := exists_mem_of_forall₂ first.builds.data hd
    have hname : source.name ∈ builder.graph.declaredNames :=
      List.mem_append_left _ (List.mem_map_of_mem hsource)
    have hsymbol : d.symbol = first.table.symbolOf source.name := by
      rw [← d.frame_symbol, hbuilds.frame]
      rfl
    have hfound' := second.issued source.name (hdeclared hname)
    refine ⟨source.name, ?_, ?_, ?_, ?_, fun s hs => ?_⟩
    · rw [← d.frame_origin, hbuilds.frame]
      rfl
    · rw [hsymbol]
      exact first.find?_entity hname
    · rw [hsymbol]
      exact SymbolTable.origin?_of_find? (first.issued source.name hname)
    · have himage :=
        carries _ _ _ (first.find?_entity hname) (second.find?_entity (hdeclared hname))
      rw [← hsymbol] at himage
      show second.early.origin? (symbols d.symbol) = _
      rw [himage]
      exact SymbolTable.origin?_of_find? hfound'
    · rw [hbuilds.unionAlias] at hs
      exact nomatch hs
  nodup := by
    have horigins := congrArg (List.map (·.origin)) first.builds.frames
    rw [Model.frames, List.map_map, List.map_map] at horigins
    have hclasses := (List.nodup_append.mp hnames).1.map (Option.some_injective _)
    rw [List.map_map] at hclasses
    exact horigins ▸ hclasses

/-- Models that are built of the same classes and enums are alike. -/
theorem alike_built (hnames : builder.graph.declaredNames.Nodup)
    (hdeclared : builder.graph.declaredNames ⊆ builder'.graph.declaredNames)
    (hdata : (first.built.data.map (DataDeclaration.rename symbols)).Perm second.built.data)
    (henums : (first.built.enums.map (EnumDeclaration.rename symbols)).Perm second.built.enums) :
    Model.Alike (first.correspondence second symbols carries) [] first.built second.built where
  data := ⟨_, _, (List.append_nil _).symm, (List.append_nil _).symm, hdata,
    first.ofClasses_built second symbols carries hnames hdeclared⟩
  aliases := by rw [first.builds.aliases, second.builds.aliases]; exact .nil
  enums := henums
  helpers := second.builds.helpers.trans first.builds.helpers.symm
  inlinedEnums s := by rw [first.builds.inlinedEnums, second.builds.inlinedEnums]; rfl

end Compilation

namespace Builder

variable {builder builder' : Builder}

/-- Compilations of graphs that list the same classes and enums end with models that are alike and
with the same origins. -/
theorem exists_alike_runs (h : builder.Alike builder')
    (hnames : builder.graph.declaredNames.Nodup)
    (hlists : ∀ source ∈ builder.graph.classes, source.ListsDiscriminant)
    (hclasses : builder.graph.classes.Perm builder'.graph.classes)
    (henums : builder.graph.enums.Perm builder'.graph.enums)
    (hrest : builder'.graph.rest = builder.graph.rest) :
    ∃ c : Correspondence, c.hi = builder.lateRun.2.symbols ∧ c.hi' = builder'.lateRun.2.symbols ∧
      c.hi.origins.Perm c.hi'.origins ∧
      ∃ added, Model.Alike c added builder.lateRun.1 builder'.lateRun.1 := by
  obtain ⟨first, hearly, htable, hbuilt, -⟩ := builder.exists_compilation
  obtain ⟨second, hearly', htable', hbuilt', -⟩ := builder'.exists_compilation
  obtain ⟨symbols, carries⟩ := Correspondence.exists_symbols first.table second.table
  let start : Correspondence := ⟨{}, first.table, {}, second.table, symbols, carries _ _ _⟩
  have hbuild : Sim start _ (during ⟨"build", builder.measures⟩ builder.declarations)
      (during ⟨"build", builder'.measures⟩ builder'.declarations) :=
    (sim_declarations h hlists hclasses henums).during _ _
  obtain ⟨⟨hdata, henum, -, -⟩, hperm⟩ := hbuild.run ⟨List.nil_prefix, hearly ▸ first.grows⟩
    ⟨List.nil_prefix, hearly' ▸ second.grows⟩ (.refl _)
  let c := first.correspondence second symbols carries
  have hdeclared : builder.graph.declaredNames ⊆ builder'.graph.declaredNames :=
    ((hclasses.map _).append (henums.map _)).subset
  have halike : Model.Alike c [] first.built second.built :=
    first.alike_built second symbols carries hnames hdeclared (hbuilt ▸ hbuilt' ▸ hdata)
      (hbuilt ▸ hbuilt' ▸ henum)
  have hsettled : Sim c (fun final final' => ∃ added, Model.Alike c added final final')
      (builder.earlyRun.1.settled builder.settings builder.mapper builder.graph.rest)
      (builder'.earlyRun.1.settled builder'.settings builder'.mapper builder'.graph.rest) := by
    rw [← hbuilt, ← hbuilt', h.settings, hrest]
    exact Model.sim_settled halike h.mapper (first.nodup_aliasSymbols_built hnames)
      (fun _ _ hs => first.not_mem_enumSymbols_built hs) builder.graph.rest
  obtain ⟨hfinal, hperm⟩ := hsettled.run ⟨le_of_eq hearly, le_of_eq htable.symm⟩
    ⟨le_of_eq hearly', le_of_eq htable'.symm⟩ hperm
  have hhi : c.hi = builder.lateRun.2.symbols := htable
  have hhi' : c.hi' = builder'.lateRun.2.symbols := htable'
  refine ⟨c, hhi, hhi', ?_, hfinal⟩
  rw [hhi, hhi']
  exact hperm

end Builder

end Typings
