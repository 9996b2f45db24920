import Typings.Emission.HelperText
import Typings.Proofs.Compile
import Typings.Proofs.Model.Order
import Typings.Proofs.Symbol.Names

/-!
# Closed output

Unless enums are inlined, compiled declarations mention nothing that they do not declare: every
reference is to one of them, and every function that their code calls belongs to a listed helper.
The one outside type is `Promise`, which only the type of responses mentions.

## Main definitions

* `Helper.Supplies`: the text of a helper declares a function.
* `Compiled.Closed`: compiled declarations mention nothing that they do not declare.

## Main results

* `closed_of_compile`: compiled declarations are closed.
-/

namespace Typings

/-! ## Helpers -/

/-- Whether a line of a helper declares a function of a name, generic or not. -/
def Helper.Supplies (helper : Helper) (name : String) : Prop :=
  ∃ rest, "function " ++ name ++ "<" ++ rest ∈ helper.lines ∨
    "function " ++ name ++ "(" ++ rest ∈ helper.lines

theorem Helper.supplies_of_mem_functions {helper : Helper} {name : String}
    (h : name ∈ helper.functions) : helper.Supplies name := by
  cases helper with
  | copyFunctions =>
    simp only [functions, List.mem_cons, List.not_mem_nil, or_false] at h
    rcases h with rfl | rfl | rfl
    · exact ⟨"T>(itemCopyFn: (item: T) => T): (array: T[]) => T[] \x7b",
        Or.inl (by simp [lines, copyFunctionLines])⟩
    · exact ⟨"T>(itemCopyFn: (item: T) => T): (object: \x7b [index: string]: T \x7d) => " ++
        "\x7b [index: string]: T \x7d \x7b", .inl (by simp [lines, copyFunctionLines])⟩
    · exact ⟨"T>(): (value: T) => T \x7b", .inl (by simp [lines, copyFunctionLines])⟩
  | uriEncoding =>
    obtain rfl := List.mem_singleton.mp h
    exact ⟨"template: TemplateStringsArray, ...substitutions: any[]): string \x7b",
      Or.inr (by simp [lines, uriEncodingLines])⟩

/-! ## Symbols of the final model -/

namespace Compilation

variable {builder : Builder} (c : Compilation builder)

theorem symbol_mem_of_mem_united {d : DataDeclaration} (h : d ∈ c.united.data) :
    d.symbol ∈ c.final.declaredSymbols := by
  obtain ⟨d', hd', hframe⟩ := c.united_precedes_final.exists_frame h
  rw [← d.frame_symbol, ← hframe]
  exact c.final.mem_declaredSymbols.mpr (Or.inl ⟨d', hd', rfl⟩)

/-- An enum is declared unless it is inlined. -/
theorem symbol_mem_of_mem_enums (hmapping : builder.settings.enumMapping ≠ .inlinedLiteralUnion)
    {e : SourceEnum} (h : e ∈ builder.graph.enums) :
    c.table.symbolOf e.name ∈ c.final.declaredSymbols := by
  have hkept : c.table.symbolOf e.name ∈
      (c.dated.keptEnums builder.settings.enumMapping).map (·.symbol) := by
    rw [Model.keptEnums, if_neg hmapping, c.enums_dated, List.map_map]
    exact List.mem_map_of_mem h
  have hrepresented := (Model.perm_representEnums c.fresh_dated _).symm.subset
    (List.mem_append_right _ hkept)
  have haliases := (c.unites.precedes.trans c.united_precedes_final).aliases
  refine c.final.mem_declaredSymbols.mpr (Or.inr ?_)
  rw [Model.aliasSymbols, c.enums_final]
  rcases List.mem_append.mp hrepresented with h | h
  · exact List.mem_append_left _ (List.map_subset _ haliases h)
  · exact List.mem_append_right _ h

/-- Unless enums are inlined, every entity is declared. -/
theorem symbolOf_mem_declaredSymbols
    (hmapping : builder.settings.enumMapping ≠ .inlinedLiteralUnion) {name : String}
    (h : name ∈ builder.graph.declaredNames) :
    c.table.symbolOf name ∈ c.final.declaredSymbols := by
  rcases List.mem_append.mp h with h | h
  · obtain ⟨source, hsource, rfl⟩ := List.mem_map.mp h
    obtain ⟨d, hd, hframe⟩ := c.exists_final_of_class hsource
    exact c.final.mem_declaredSymbols.mpr (Or.inl ⟨d, hd, congrArg (·.symbol) hframe⟩)
  · obtain ⟨e, he, rfl⟩ := List.mem_map.mp h
    exact c.symbol_mem_of_mem_enums hmapping he

/-- What closed code may mention: declared symbols, and functions of helpers or of parameters. -/
def closedVocabulary : CodeVocabulary where
  types := { symbol := fun s _ => s ∈ c.final.declaredSymbols }
  callable name := (∃ helper ∈ c.final.helpers, helper.Supplies name) ∨
    ∃ v, name = constructorName v

section Closed

variable (hmapping : builder.settings.enumMapping ≠ .inlinedLiteralUnion)
  (hmapper : builder.mapper.declaredNames = builder.graph.declaredNames)

include hmapping hmapper

theorem covered_closedVocabulary :
    builder.mapper.Covered c.table.symbolOf c.closedVocabulary.types where
  symbol _ hname _ := c.symbolOf_mem_declaredSymbols hmapping (hmapper ▸ hname)
  primitive _ := trivial

omit hmapping hmapper in
theorem codeScoping_closedVocabulary : Model.CodeScoping c.final c.closedVocabulary where
  data d hd _ := c.final.mem_declaredSymbols.mpr (Or.inl ⟨d, hd, rfl⟩)
  var _ := trivial
  helper helper hhelper _ hname :=
    Or.inl ⟨helper, hhelper, Helper.supplies_of_mem_functions hname⟩
  parameter v := Or.inr ⟨v, rfl⟩

theorem scoping_closedVocabulary :
    Model.Scoping c.table builder.settings builder.mapper builder.graph.rest c.final
      (fun _ => c.closedVocabulary.types) fun _ => c.closedVocabulary.types := by
  refine c.scoping_declared (c.covered_closedVocabulary hmapping hmapper) (fun a ha _ => ?_)
    c.codeScoping_closedVocabulary
  exact c.final.mem_declaredSymbols.mpr (Or.inr (List.mem_append_left _ (List.mem_map_of_mem ha)))

theorem propertiesWithin_closedVocabulary :
    c.reconciled.PropertiesWithin fun _ => c.closedVocabulary.types :=
  c.propertiesWithin_reconciled (fun _ => c.covered_closedVocabulary hmapping hmapper)
    fun _ _ => trivial

/-- The supertypes of a declaration refer to declarations. -/
theorem supertypes_within_closedVocabulary {d : DataDeclaration} (h : d ∈ c.final.data) :
    ∀ t ∈ d.supertypes, t.Within c.closedVocabulary.types :=
  c.supertypes_within (c.covered_closedVocabulary hmapping hmapper) c.codeScoping_closedVocabulary h

omit hmapping hmapper in
/-- The definition of an alias refers to declarations, or to `Promise`. -/
theorem symbol_of_mem_aliases {a : AliasDeclaration} (h : a ∈ c.final.aliases) :
    ∀ s ∈ a.definition.symbols,
      s ∈ c.final.declaredSymbols ∨ c.table.find? (.synthetic "Promise") = some s := by
  intro s hs
  obtain ⟨args, hnode⟩ := TypeExpr.mem_symbols.mp hs
  let voc : Vocabulary := { symbol := fun s _ =>
    s ∈ c.final.declaredSymbols ∨ c.table.find? (.synthetic "Promise") = some s }
  have hwithin : a.definition.Within voc :=
    (c.aliasKind_of_mem_final h).within (fun d hd => Or.inl (c.symbol_mem_of_mem_united hd))
      (fun _ hpromise => Or.inr hpromise) (fun _ _ => trivial) fun _ _ => trivial
  exact hwithin.symbol_of_mem hnode

end Closed

end Compilation

/-! ## Closed output -/

/-- Whether compiled declarations mention nothing that they do not declare. Only the definitions of
aliases may mention `Promise`, and code may call the functions that it takes as parameters. -/
structure Compiled.Closed (out : Compiled) : Prop where
  data : ∀ d ∈ out.model.data, ∀ t ∈ d.supertypes ++ d.types ++ d.codeTypes, ∀ s ∈ t.symbols,
    s ∈ out.model.declarations.map (·.symbol)
  aliases : ∀ a ∈ out.model.aliases, ∀ s ∈ a.definition.symbols,
    s ∈ out.model.declarations.map (·.symbol) ∨ out.names.origin? s = some (.synthetic "Promise")
  calls : ∀ d ∈ out.model.data, ∀ name ∈ d.calledNames,
    (∃ helper ∈ out.model.helpers, helper.Supplies name) ∨ ∃ v, name = constructorName v

/-- Unless enums are inlined, compiled declarations are closed. -/
theorem closed_of_compile {graph : SourceGraph} {settings : Settings} {out : Compiled}
    (hmapping : settings.enumMapping ≠ .inlinedLiteralUnion)
    (h : compile graph settings = .ok out) : out.Closed := by
  obtain ⟨c, hresolve, hmodel, -⟩ := exists_compilation h
  have hsymbols : ∀ s, s ∈ out.model.declarations.map (·.symbol) ↔ s ∈ c.final.declaredSymbols := by
    rw [hmodel]
    exact fun s => (c.final.perm_symbols_order out.names settings.sortMode).mem_iff
  have hscoping := c.scoping_closedVocabulary hmapping rfl
  have hcode := c.codeWithin hscoping c.codeScoping_closedVocabulary
    (c.propertiesWithin_closedVocabulary hmapping rfl)
  constructor
  · intro d hd t ht s hs
    rw [hmodel] at hd
    obtain ⟨d', hd', rfl⟩ := (c.final.mem_data_order out.names settings.sortMode).mp hd
    obtain ⟨args, hnode⟩ := TypeExpr.mem_symbols.mp hs
    have hwithin : t.Within c.closedVocabulary.types := by
      simp only [List.mem_append, SortMode.supertypes_arrange, SortMode.mem_types_arrange,
        DataDeclaration.codeTypes, SortMode.codeNodes_arrange] at ht
      rcases ht with (ht | ht) | ht
      · exact c.supertypes_within_closedVocabulary hmapping rfl hd' t ht
      · exact c.types_within hscoping (fun _ => trivial) hd' t ht
      · exact (hcode d' hd').types t ht
    exact (hsymbols s).mpr (hwithin.symbol_of_mem hnode)
  · intro a ha s hs
    rw [hmodel, (c.final.perm_aliases_order out.names settings.sortMode).mem_iff] at ha
    refine (c.symbol_of_mem_aliases ha s hs).imp (hsymbols s).mpr fun hpromise => ?_
    rw [SymbolTable.origin?_of_resolve hresolve]
    exact SymbolTable.origin?_of_find? hpromise
  · intro d hd name hname
    rw [hmodel] at hd ⊢
    obtain ⟨d', hd', rfl⟩ := (c.final.mem_data_order out.names settings.sortMode).mp hd
    rw [DataDeclaration.calledNames, SortMode.codeNodes_arrange] at hname
    rw [Model.helpers_order]
    exact (hcode d' hd').called name hname

theorem closed_gift : giftSettings.enumMapping ≠ .inlinedLiteralUnion ∧
    ∃ out, compile giftGraph giftSettings = .ok out ∧ out.Closed := by
  have hmapping : giftSettings.enumMapping ≠ .inlinedLiteralUnion := by decide
  obtain ⟨out, hout⟩ := exists_compile_gift
  exact ⟨hmapping, out, hout, closed_of_compile hmapping hout⟩

end Typings
