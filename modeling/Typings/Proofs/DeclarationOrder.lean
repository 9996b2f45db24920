import Typings.Proofs.Emission.Total
import Typings.Proofs.Pulls
import Typings.Proofs.Simulation.Order
import Typings.Proofs.Simulation.Runs

/-!
# The order of a graph

The text of a graph does not depend on the order in which it lists its classes and enums, if all
declarations are sorted and classes list their discriminants themselves. A discriminant that is not
listed has the type of all literals below its class, in the order in which they are found.

## Main definitions

* `SourceGraph.text?`: the text of a graph, if it can be compiled and written.

## Main results

* `SourceGraph.text?_eq_some_iff`: when a graph has a text, and which.
* `SourceGraph.exists_compile_of_perm`: in another order, a graph is compiled to the same
  declarations with other symbols.
* `text_eq_of_perm`: the order of classes and enums makes no difference to the text.
-/

namespace Typings

/-! ## Texts -/

namespace SourceGraph

/-- The text of a graph, if it can be compiled and written. -/
def text? (graph : SourceGraph) (settings : Settings) (options : EmitOptions) : Option String :=
  (compile graph settings).toOption.bind fun out => (emit options out.names out.model).toOption

variable {graph : SourceGraph} {settings : Settings} {options : EmitOptions}

/-- Whatever is compiled has a text. -/
theorem text?_of_compile {out : Compiled} (h : compile graph settings = .ok out)
    (options : EmitOptions) :
    graph.text? settings options = some (Emission.documentText options out.names out.model) := by
  obtain ⟨c, hresolve, hmodel, -⟩ := exists_compilation h
  have hemit := c.emit_order hresolve options settings.sortMode
  rw [← hmodel] at hemit
  rw [text?, h]
  exact toOption_eq_some_iff.mpr hemit

theorem text?_eq_some_iff {text : String} :
    graph.text? settings options = some text ↔
      ∃ out, compile graph settings = .ok out ∧
        Emission.documentText options out.names out.model = text := by
  constructor
  · intro h
    obtain ⟨out, hout, -⟩ := Option.bind_eq_some_iff.mp h
    have hcompile := toOption_eq_some_iff.mp hout
    exact ⟨out, hcompile, Option.some.inj ((text?_of_compile hcompile options).symm.trans h)⟩
  · rintro ⟨out, hcompile, rfl⟩
    exact text?_of_compile hcompile options

end SourceGraph

/-! ## Orders -/

/-- In a compilation that succeeds, declarations with the same name have the same symbol. -/
theorem Compilation.eq_of_fullName? {builder : Builder} (c : Compilation builder)
    {policy : NamingPolicy} {names : Names} {mode : SortMode}
    (hresolve : c.table.resolve policy = .ok names)
    (hunique : names.conflict? ((c.final.order names mode).declarations.map (·.symbol)) = none) :
    ∀ s ∈ c.final.declaredSymbols, ∀ s' ∈ c.final.declaredSymbols,
      names.fullName? s = names.fullName? s' → s = s' := by
  intro s hs s' hs' heq
  obtain ⟨origin, hfound⟩ := c.exists_origin hs
  have hissued :=
    SymbolTable.isSome_fullName?_of_resolve hresolve (SymbolTable.origin?_of_find? hfound)
  obtain ⟨name, hname⟩ := Option.isSome_iff_exists.mp hissued
  have hordered := c.final.perm_symbols_order names mode
  exact Names.conflict?_eq_none_iff.mp hunique s (hordered.mem_iff.mpr hs) s'
    (hordered.mem_iff.mpr hs') name hname (heq ▸ hname)

/-- Renamed symbols do not share names if the original ones do not. -/
theorem Names.conflict?_map_eq_none {names names' : Names} {f : Symbol → Symbol}
    (hnames : ∀ s, names'.name? (f s) = names.name? s) {symbols : List Symbol}
    (h : names.conflict? symbols = none) : names'.conflict? (symbols.map f) = none := by
  rw [conflict?_eq_none_iff] at h ⊢
  intro _ ha _ hb name hname hname'
  obtain ⟨s, hs, rfl⟩ := List.mem_map.mp ha
  obtain ⟨s', hs', rfl⟩ := List.mem_map.mp hb
  rw [fullName?_rename hnames] at hname hname'
  rw [h s hs s' hs' name hname hname']

namespace SourceGraph

variable {graph graph' : SourceGraph} {settings : Settings}

/-- Graphs that list the same classes and enums are built alike. -/
theorem builder_alike (settings : Settings) (hnames : graph.declaredNames.Nodup)
    (hclasses : graph.classes.Perm graph'.classes) (henums : graph.enums.Perm graph'.enums) :
    (graph.builder settings).Alike (graph'.builder settings) where
  settings := rfl
  mapper := .of_perm ((hclasses.map _).append (henums.map _))
  findClass? := by
    funext name
    exact (find?_key_perm hclasses (List.nodup_append.mp hnames).1).symm

/-- A graph that lists the same classes and enums is compiled to the same declarations with other
symbols, which have the same names. -/
theorem exists_compile_of_perm (hnames : graph.declaredNames.Nodup)
    (hlists : ∀ source ∈ graph.classes, source.ListsDiscriminant)
    (hmode : settings.sortMode = .full)
    (hclasses : graph.classes.Perm graph'.classes) (henums : graph.enums.Perm graph'.enums)
    (hrest : graph'.rest = graph.rest) {out : Compiled} (h : compile graph settings = .ok out) :
    ∃ (out' : Compiled) (f : Symbol → Symbol), compile graph' settings = .ok out' ∧
      out'.model = out.model.rename f ∧ ∀ s, out'.names.name? (f s) = out.names.name? s := by
  obtain ⟨hfault, hcycle, hfinish⟩ := compileWith_eq_ok_iff.mp h
  obtain ⟨hresolve, hmodel, hunique⟩ := ok_finish hfinish
  obtain ⟨c, hhi, hhi', hperm, added, halike⟩ := Builder.exists_alike_runs
    (builder_alike settings hnames hclasses henums) hnames hlists hclasses henums hrest
  replace hresolve : c.hi.resolve settings.naming = .ok out.names := by
    rw [hhi]
    exact hresolve
  obtain ⟨names', hresolve'⟩ := SymbolTable.exists_resolve_of_perm hperm hresolve
  have hname : ∀ s, names'.name? (c.symbols s) = out.names.name? s := by
    intro s
    rw [SymbolTable.name?_of_resolve hresolve', SymbolTable.name?_of_resolve hresolve,
      c.origin?_symbols hperm]
  have horder : (graph'.builder settings).lateRun.1.order names' settings.sortMode =
      out.model.rename c.symbols := by
    obtain ⟨first, -, htable, -, hfinal⟩ := (graph.builder settings).exists_compilation
    replace hmodel : out.model = first.final.order out.names .full := by
      rw [hmodel, hfinal, hmode]
      rfl
    rw [hhi, ← htable] at hresolve
    rw [hmodel] at hunique
    rw [← hfinal] at halike
    rw [hmode, hmodel]
    exact halike.order hname (first.eq_of_fullName? hresolve hunique)
      (first.nodup_aliasSymbols hnames)
  have hunique' : names'.conflict? (((graph'.builder settings).lateRun.1.order names'
      settings.sortMode).declarations.map (·.symbol)) = none := by
    rw [horder, OrderedModel.symbols_rename]
    exact Names.conflict?_map_eq_none hname hunique
  obtain ⟨out', hfinish'⟩ := exists_finish (hhi' ▸ hresolve') hunique'
  obtain ⟨hresolved, hmodel', -⟩ := ok_finish hfinish'
  obtain rfl : names' = out'.names := Except.ok.inj ((hhi' ▸ hresolve').symm.trans hresolved)
  have hcycle' : graph'.pullCycle? = none := (pullCycle?_eq_none_perm hclasses).mp hcycle
  have hcompile' := compileWith_eq_ok_iff.mpr ⟨hfault, hcycle', hfinish'⟩
  exact ⟨out', c.symbols, hcompile', hmodel'.trans horder, hname⟩

/-- A graph that lists the same classes and enums has the same text. -/
theorem text?_of_perm (hnames : graph.declaredNames.Nodup)
    (hlists : ∀ source ∈ graph.classes, source.ListsDiscriminant)
    (hmode : settings.sortMode = .full)
    (hclasses : graph.classes.Perm graph'.classes) (henums : graph.enums.Perm graph'.enums)
    (hrest : graph'.rest = graph.rest) {options : EmitOptions} {text : String}
    (h : graph.text? settings options = some text) : graph'.text? settings options = some text := by
  obtain ⟨out, hcompile, rfl⟩ := text?_eq_some_iff.mp h
  obtain ⟨out', f, hcompile', hmodel, hname⟩ :=
    exists_compile_of_perm hnames hlists hmode hclasses henums hrest hcompile
  rw [text?_of_compile hcompile' options, hmodel, documentText_rename hname]

end SourceGraph

/-- The order in which a graph lists its classes and enums makes no difference: either it has no
text in any order, or it has the same text in every order. -/
theorem text_eq_of_perm {graph : SourceGraph} {settings : Settings}
    (hnames : graph.declaredNames.Nodup)
    (hlists : ∀ source ∈ graph.classes, source.ListsDiscriminant)
    (hmode : settings.sortMode = .full)
    {classes : List SourceClass} {enums : List SourceEnum} (hclasses : classes.Perm graph.classes)
    (henums : enums.Perm graph.enums) (options : EmitOptions) :
    SourceGraph.text? { graph with classes, enums } settings options =
      graph.text? settings options := by
  have hnames' : SourceGraph.declaredNames { graph with classes, enums } |>.Nodup :=
    ((hclasses.map _).append (henums.map _)).nodup_iff.mpr hnames
  have hrest : SourceGraph.rest { graph with classes, enums } = graph.rest := rfl
  refine Option.ext fun text => ⟨fun h => ?_, fun h => ?_⟩
  · exact SourceGraph.text?_of_perm hnames' (fun c hc => hlists c (hclasses.mem_iff.mp hc)) hmode
      hclasses henums hrest.symm h
  · exact SourceGraph.text?_of_perm hnames hlists hmode hclasses.symm henums.symm hrest h

/-- A class with a discriminant, a class below it that it refers to, and two enums. -/
def petGraph : SourceGraph where
  classes :=
    [{ name := "Pet"
       properties :=
        [{ name := "tag", type := .named "Tag" [] }, { name := "mate", type := .named "Cat" [] }]
       discriminantProperty := some "tag"
       unionMembers := ["Cat"] },
      { name := "Cat", parent := some (.named "Pet" []), discriminantLiteral := some "cat" }]
  enums :=
    [{ name := "Tag", members := [{ name := "Cat" }] },
      { name := "Hue", members := [{ name := "Red" }] }]

/-- Settings under which everything is sorted. -/
def petSettings : Settings where
  sortMode := .full
  enumMapping := .unmodified
  knownTypes := giftSettings.knownTypes

theorem listsDiscriminant_pet : ∀ source ∈ petGraph.classes, source.ListsDiscriminant := by
  refine List.forall_mem_cons.mpr ⟨fun name hname => ?_, List.forall_mem_singleton.mpr nofun⟩
  exact ⟨_, List.mem_cons_self, Option.some.inj hname, rfl⟩

/-- The graph has a text, and it has the same one if everything is listed the other way around. -/
theorem text_eq_pet : petGraph.declaredNames.Nodup ∧
    (∀ source ∈ petGraph.classes, source.ListsDiscriminant) ∧ petSettings.sortMode = .full ∧
      ∃ text, petGraph.text? petSettings {} = some text ∧
        SourceGraph.text?
          { petGraph with
            classes := petGraph.classes.reverse
            enums := petGraph.enums.reverse } petSettings {} = some text := by
  have hnames : petGraph.declaredNames.Nodup := by decide
  have hcompile : ∃ out, compile petGraph petSettings = .ok out := exists_ok_of_isSome (by cbv)
  obtain ⟨out, hout⟩ := hcompile
  have htext := SourceGraph.text?_of_compile hout {}
  have hsame := text_eq_of_perm hnames listsDiscriminant_pet (rfl : petSettings.sortMode = .full)
    (List.reverse_perm petGraph.classes) (List.reverse_perm petGraph.enums) {}
  exact ⟨hnames, listsDiscriminant_pet, rfl, _, htext, hsame.trans htext⟩

end Typings
