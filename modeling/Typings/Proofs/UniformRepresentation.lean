import Typings.Proofs.Compile
import Typings.Proofs.Model.Order
import Typings.Proofs.Symbol.Names

/-!
# Uniform representation

Where dates are represented by an alias, no member and no alias mentions a date. Where enums are
inlined, a reference to an enum of texts is left only if it has type arguments or is a reference to
a class of the same name. The type arguments of supertypes are not represented: they are those of
the source. So a date or an enum is left in them as soon as the source has one there.

## Main definitions

* `OrderedModel.memberTypes`, `OrderedModel.supertypeArguments`: the types of compiled declarations.
* `SourceGraph.supertypeArguments`: what the type arguments of source supertypes are mapped to.
* `SourceGraph.textEnumSymbols`, `SourceGraph.classSymbols`: the symbols of enums of texts and of
  classes.

## Main results

* `exists_unrepresented_iff`: when dates and references to enums are left.
-/

namespace Typings

namespace OrderedModel

/-- The types of members, and the definitions of aliases. -/
def memberTypes (model : OrderedModel) : List TypeExpr :=
  model.data.flatMap (·.types) ++ model.aliases.map (·.definition)

def supertypeArguments (model : OrderedModel) : List TypeExpr :=
  model.data.flatMap fun d => d.supertypes.flatMap (·.parts)

end OrderedModel

namespace Model

variable (names : Names) (mode : SortMode) {model : Model}

theorem mem_memberTypes_order {t : TypeExpr} :
    t ∈ (model.order names mode).memberTypes ↔
      (∃ d ∈ model.data, t ∈ d.types) ∨ ∃ a ∈ model.aliases, a.definition = t := by
  simp only [OrderedModel.memberTypes, List.mem_append, List.mem_flatMap, List.mem_map,
    mem_data_order, (model.perm_aliases_order names mode).mem_iff]
  refine or_congr_left ⟨?_, ?_⟩
  · rintro ⟨_, ⟨d, hd, rfl⟩, ht⟩
    exact ⟨d, hd, (mode.mem_types_arrange d).mp ht⟩
  · rintro ⟨d, hd, ht⟩
    exact ⟨_, ⟨d, hd, rfl⟩, (mode.mem_types_arrange d).mpr ht⟩

theorem mem_supertypeArguments_order {p : TypeExpr} :
    p ∈ (model.order names mode).supertypeArguments ↔
      ∃ d ∈ model.data, ∃ t ∈ d.supertypes, p ∈ t.parts := by
  simp only [OrderedModel.supertypeArguments, List.mem_flatMap, mem_data_order]
  constructor
  · rintro ⟨_, ⟨d, hd, rfl⟩, ht⟩
    exact ⟨d, hd, mode.supertypes_arrange d ▸ ht⟩
  · rintro ⟨d, hd, ht⟩
    exact ⟨_, ⟨d, hd, rfl⟩, (mode.supertypes_arrange d).symm ▸ ht⟩

end Model

namespace SourceGraph

/-- What the type arguments of the supertypes of classes are mapped to. -/
def supertypeArguments (graph : SourceGraph) (image : SourceType → Except Unresolved TypeExpr) :
    List TypeExpr :=
  graph.classes.flatMap fun c => (c.parent.toList ++ c.interfaces).flatMap fun source =>
    match image source with
    | .ok type => type.parts
    | .error _ => []

theorem mem_supertypeArguments {graph : SourceGraph}
    {image : SourceType → Except Unresolved TypeExpr} {p : TypeExpr} :
    p ∈ graph.supertypeArguments image ↔ ∃ c ∈ graph.classes,
      ∃ source ∈ c.parent.toList ++ c.interfaces, ∃ t, image source = .ok t ∧ p ∈ t.parts := by
  simp only [supertypeArguments, List.mem_flatMap]
  refine exists_congr fun c => and_congr_right fun _ => exists_congr fun source =>
    and_congr_right fun _ => ?_
  cases image source with
  | ok t => simp
  | error e => simp

def textEnumSymbols (graph : SourceGraph) (symbolOf : String → Symbol) : List Symbol :=
  (graph.enums.filter fun e => Builder.enumKind e = .stringBased).map fun e => symbolOf e.name

/-- The symbols of the classes. -/
def classSymbols (graph : SourceGraph) (symbolOf : String → Symbol) : List Symbol :=
  graph.classes.map fun c => symbolOf c.name

end SourceGraph

namespace Compilation

variable {builder : Builder} (c : Compilation builder)

/-! ## Supertypes -/

/-- The type arguments of a supertype are those of the source, or variables. -/
theorem mem_or_var_of_mem_parts {d : DataDeclaration} (hd : d ∈ c.final.data) {t p : TypeExpr}
    (ht : t ∈ d.supertypes) (hp : p ∈ t.parts) :
    p ∈ builder.graph.supertypeArguments (builder.mapper.image c.table.symbolOf) ∨
      ∃ v, p = .var v := by
  rcases c.supertype_cases hd ht with ⟨source, hsource, -, type, htype, himage⟩ | ⟨e, -, rfl⟩
  · exact .inl
      (SourceGraph.mem_supertypeArguments.mpr ⟨source, hsource, type, htype, t, himage, hp⟩)
  · obtain ⟨v, -, rfl⟩ := List.mem_map.mp hp
    exact .inr ⟨v, rfl⟩

/-- The type arguments of source supertypes are all there. -/
theorem exists_mem_parts {p : TypeExpr}
    (hp : p ∈ builder.graph.supertypeArguments (builder.mapper.image c.table.symbolOf)) :
    ∃ d ∈ c.final.data, ∃ t ∈ d.supertypes, p ∈ t.parts := by
  obtain ⟨source, hsource, type, htype, t, himage, hp⟩ := SourceGraph.mem_supertypeArguments.mp hp
  obtain ⟨d, hd, hframe⟩ := c.exists_final_of_class hsource
  refine ⟨d, hd, t, ?_, hp⟩
  rw [← d.frame_supertypes, hframe, Builder.supertypes_classFrame]
  refine List.mem_filterMap.mpr ⟨type, htype, ?_⟩
  cases t <;> simp_all [Builder.supertypeImage?, TypeExpr.parts]

/-- A property of types that variables do not have is left in the type arguments of supertypes as
soon as the source has it there. -/
theorem exists_supertypeArgument_iff (names : Names) (mode : SortMode) {P : TypeExpr → Prop}
    (hvar : ∀ v, ¬P (.var v)) :
    (∃ p ∈ (c.final.order names mode).supertypeArguments, P p) ↔
      ∃ p ∈ builder.graph.supertypeArguments (builder.mapper.image c.table.symbolOf), P p := by
  constructor
  · rintro ⟨p, hp, hP⟩
    obtain ⟨d, hd, t, ht, hp⟩ := (Model.mem_supertypeArguments_order names mode).mp hp
    rcases c.mem_or_var_of_mem_parts hd ht hp with hp | ⟨v, rfl⟩
    · exact ⟨p, hp, hP⟩
    · exact absurd hP (hvar v)
  · rintro ⟨p, hp, hP⟩
    exact ⟨p, (Model.mem_supertypeArguments_order names mode).mpr (c.exists_mem_parts hp), hP⟩

/-! ## Dates -/

section Dates

variable (hmapping : builder.settings.dateMapping ≠ .unmodified)

include hmapping

theorem scoping_dates :
    Model.Scoping c.table builder.settings builder.mapper builder.graph.rest c.final
      (fun _ => {}) fun _ => { primitive := fun k => k ≠ .temporal } where
  le _ := ⟨fun _ _ _ => trivial, fun _ _ => trivial, fun _ _ => trivial⟩
  mapped _ := ⟨fun _ _ _ => trivial, fun _ => trivial⟩
  inlines _ := by
    apply Vocabulary.Le.inlines
    exact ⟨fun _ _ _ => trivial, fun _ _ => trivial, fun _ hk => hk.2.resolve_left hmapping⟩
  aliased _ _ _ _ := trivial
  data _ _ _ _ _ := trivial
  primitive _ _ hk := hk
  parameter _ _ _ := trivial
  binds _ _ _ _ _ _ _ _ _ := trivial

/-- No member and no alias mentions a date. -/
theorem temporal_notMem_memberTypes (names : Names) (mode : SortMode) {t : TypeExpr}
    (h : t ∈ (c.final.order names mode).memberTypes) : TypeExpr.temporal ∉ t.nodes := by
  intro hdate
  have hscoping := c.scoping_dates hmapping
  rcases (Model.mem_memberTypes_order names mode).mp h with ⟨d, hd, ht⟩ | ⟨a, ha, rfl⟩
  · exact absurd rfl (c.types_within hscoping (fun _ => trivial) hd t ht _ hdate)
  · exact absurd rfl
      (c.definition_within hscoping (fun _ => trivial) (fun _ _ => trivial) ha _ hdate)

end Dates

/-! ## Enums -/

/-- A symbol that is not issued for an entity itself does not stand for an enum. -/
theorem notMem_textEnumSymbols {s : Symbol} {origin : Origin} (h : c.table.find? origin = some s)
    (horigin : ∀ name, origin ≠ .entity name "") :
    s ∉ builder.graph.textEnumSymbols c.table.symbolOf := by
  intro hs
  obtain ⟨e, he, rfl⟩ := List.mem_map.mp hs
  have hname : e.name ∈ builder.graph.declaredNames :=
    List.mem_append_right _ (List.mem_map_of_mem (List.mem_of_mem_filter he))
  exact horigin _ (SymbolTable.find?_injective h (c.find?_entity hname))

/-- An alias does not have the symbol of an enum, unless enums become aliases. -/
theorem AliasKind.notMem_textEnumSymbols {c : Compilation builder} {a : AliasDeclaration}
    (h : c.AliasKind a) (hmapping : builder.settings.enumMapping ≠ .literalUnion) :
    a.symbol ∉ builder.graph.textEnumSymbols c.table.symbolOf := by
  cases h with
  | date hsymbol _ _ => exact c.notMem_textEnumSymbols hsymbol (by simp)
  | literals hliterals _ _ _ _ => exact absurd hliterals hmapping
  | union hsymbol _ _ _ => exact c.notMem_textEnumSymbols hsymbol (by simp)
  | response hsymbol _ _ => exact c.notMem_textEnumSymbols hsymbol (by simp)

section Enums

variable (hmapping : builder.settings.enumMapping = .inlinedLiteralUnion)

include hmapping

/-- An enum of texts is inlined. -/
theorem lookup_inlinedEnums_ne_none {s : Symbol}
    (h : s ∈ builder.graph.textEnumSymbols c.table.symbolOf) :
    c.final.inlinedEnums.lookup s ≠ none := by
  obtain ⟨e, he, rfl⟩ := List.mem_map.mp h
  obtain ⟨he, hkind⟩ := List.mem_filter.mp he
  have hmem : Builder.enumImage c.table.symbolOf e ∈ c.dated.enums :=
    c.enums_dated ▸ List.mem_map_of_mem he
  have hsome : ((c.dated.representEnums .inlinedLiteralUnion).inlinedEnums.lookup
      (c.table.symbolOf e.name)).isSome = true :=
    Model.isSome_lookup_representEnums c.fresh_dated c.inlinedEnums_dated hmem
      (by simpa [EnumDeclaration.isStringBased, Builder.enumImage] using hkind)
  rw [c.inlinedEnums_final, represented, hmapping]
  exact Option.isSome_iff_ne_none.mp hsome

theorem scoping_enums :
    Model.Scoping c.table builder.settings builder.mapper builder.graph.rest c.final
      (fun _ => {}) fun _ =>
        { symbol := fun s n => s ∉ builder.graph.textEnumSymbols c.table.symbolOf ∨ n ≠ 0 ∨
            s ∈ builder.graph.classSymbols c.table.symbolOf } where
  le _ := ⟨fun _ _ _ => trivial, fun _ _ => trivial, fun _ _ => trivial⟩
  mapped _ := ⟨fun _ _ _ => trivial, fun _ => trivial⟩
  inlines _ := by
    intro n hnone hn
    cases n with
    | reference s args =>
      cases args with
      | nil => exact .inl fun hs => c.lookup_inlinedEnums_ne_none hmapping hs hnone
      | cons _ _ => exact .inr (.inl nofun)
    | _ => trivial
  aliased _ a ha _ :=
    Or.inl ((c.aliasKind_of_mem_final ha).notMem_textEnumSymbols (by rw [hmapping]; exact nofun))
  data _ e he hcategory _ := by
    rcases c.classFrame_or_added he with ⟨source, hsource, hframe⟩ | hadded
    · have hsymbol : e.symbol = c.table.symbolOf source.name := congrArg (·.symbol) hframe
      exact .inr (.inr (hsymbol ▸ List.mem_map_of_mem hsource))
    · cases hadded with
      | service hservice _ => exact absurd hservice hcategory
      | generated _ horigin hsymbol => exact .inl (c.notMem_textEnumSymbols hsymbol horigin)
  primitive _ _ _ := trivial
  parameter _ _ _ := trivial
  binds _ _ _ _ _ _ _ _ _ := trivial

/-- What is left of enums in members and aliases has type arguments or is a class as well. -/
theorem reference_of_mem_memberTypes (names : Names) (mode : SortMode) {t : TypeExpr}
    (h : t ∈ (c.final.order names mode).memberTypes) {s : Symbol} {args : List TypeExpr}
    (hnode : .reference s args ∈ t.nodes)
    (hs : s ∈ builder.graph.textEnumSymbols c.table.symbolOf) :
    args ≠ [] ∨ s ∈ builder.graph.classSymbols c.table.symbolOf := by
  have hscoping := c.scoping_enums hmapping
  have hadmits : s ∉ builder.graph.textEnumSymbols c.table.symbolOf ∨ args.length ≠ 0 ∨
      s ∈ builder.graph.classSymbols c.table.symbolOf := by
    rcases (Model.mem_memberTypes_order names mode).mp h with ⟨d, hd, ht⟩ | ⟨a, ha, rfl⟩
    · exact c.types_within hscoping (fun _ => trivial) hd t ht _ hnode
    · refine c.definition_within hscoping (fun _ => trivial) (fun promise hpromise => ?_) ha _ hnode
      exact .inl (c.notMem_textEnumSymbols hpromise (by simp))
  exact (hadmits.resolve_left (not_not_intro hs)).imp_left fun hlength hnil => hlength (hnil ▸ rfl)

end Enums

end Compilation

/-! ## What is left -/

/-- The symbol that was issued for an entity, which any symbol stands in for if none was. -/
def Compiled.symbolOf (out : Compiled) (name : String) : Symbol :=
  ((out.names.origins.findIdx? (· == .entity name "")).map Symbol.mk).getD default

theorem SymbolTable.symbolOf_of_resolve {table : SymbolTable} {policy : NamingPolicy}
    {out : Compiled}
    (h : table.resolve policy = .ok out.names) : out.symbolOf = table.symbolOf := by
  funext name
  rw [Compiled.symbolOf, eq_of_resolve h, symbolOf, find?_eq_findIdx?]

/-- Where dates are represented, a date is left exactly if the source has one among the type
arguments of a supertype. Where enums are inlined, a reference to an enum of texts is left exactly
if the source has one there, or if a member or an alias refers to an enum with type arguments or to
a class that has the name of an enum. -/
theorem exists_unrepresented_iff {graph : SourceGraph} {settings : Settings} {out : Compiled}
    (h : compile graph settings = .ok out) :
    let image := (Mapper.builtIn settings graph).image out.symbolOf
    let enums := graph.textEnumSymbols out.symbolOf
    (settings.dateMapping ≠ .unmodified →
      ((∃ t ∈ out.model.memberTypes ++ out.model.supertypeArguments, .temporal ∈ t.nodes) ↔
        ∃ t ∈ graph.supertypeArguments image, .temporal ∈ t.nodes)) ∧
    (settings.enumMapping = .inlinedLiteralUnion →
      ((∃ t ∈ out.model.memberTypes ++ out.model.supertypeArguments, ∃ s ∈ t.symbols, s ∈ enums) ↔
        (∃ t ∈ graph.supertypeArguments image, ∃ s ∈ t.symbols, s ∈ enums) ∨
          ∃ t ∈ out.model.memberTypes, ∃ s args, .reference s args ∈ t.nodes ∧ s ∈ enums ∧
            (args ≠ [] ∨ s ∈ graph.classSymbols out.symbolOf))) := by
  obtain ⟨c, hresolve, hmodel, -⟩ := exists_compilation h
  rw [SymbolTable.symbolOf_of_resolve hresolve, hmodel]
  intro image enums
  simp only [List.mem_append, or_and_right, exists_or]
  constructor
  · intro hmapping
    rw [c.exists_supertypeArgument_iff out.names settings.sortMode (by simp [TypeExpr.nodes])]
    refine or_iff_right ?_
    rintro ⟨t, ht, hdate⟩
    exact c.temporal_notMem_memberTypes hmapping _ _ ht hdate
  · intro hmapping
    rw [c.exists_supertypeArgument_iff out.names settings.sortMode
      (by simp [TypeExpr.symbols, TypeExpr.nodes, TypeExpr.referenced?]), or_comm]
    refine or_congr_right ⟨?_, ?_⟩
    · rintro ⟨t, ht, s, hs, henum⟩
      obtain ⟨args, hnode⟩ := TypeExpr.mem_symbols.mp hs
      exact ⟨t, ht, s, args, hnode, henum,
        c.reference_of_mem_memberTypes hmapping _ _ ht hnode henum⟩
    · rintro ⟨t, ht, s, args, hnode, henum, -⟩
      exact ⟨t, ht, s, TypeExpr.mem_symbols.mpr ⟨args, hnode⟩, henum⟩

theorem exists_temporal_gift : ∃ out, compile giftGraph giftSettings = .ok out ∧
    ∃ t ∈ out.model.memberTypes ++ out.model.supertypeArguments, .temporal ∈ t.nodes := by
  obtain ⟨out, hout⟩ := exists_compile_gift
  have himage : (Mapper.builtIn giftSettings giftGraph).image out.symbolOf
      (.named "Box" [.named "Date" []]) = .ok (.reference (out.symbolOf "Box") [.temporal]) :=
    rfl
  refine ⟨out, hout, ((exists_unrepresented_iff hout).1 (by decide)).mpr
    ⟨.temporal, SourceGraph.mem_supertypeArguments.mpr ?_, TypeExpr.self_mem_nodes _⟩⟩
  exact ⟨{ name := "Gift", parent := some (.named "Box" [.named "Date" []]) }, by simp [giftGraph],
    _, by simp, _, himage, by simp [TypeExpr.parts]⟩

end Typings
