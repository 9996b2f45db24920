import Typings.Proofs.Emission.Symbols
import Typings.Proofs.UniqueNames

/-!
# Compiled declarations can be written

Writing fails where a symbol has no name. A symbol has a name if the table of the compilation issued
it, and every symbol that a compilation stores anywhere was issued, whichever resolvers map its
types.

## Main results

* `Compilation.issues_of_mem_storedSymbols`: the symbols that are stored in declarations were
  issued.
* `exists_text_of_compileWith`: compiled declarations can be written.
-/

namespace Typings

namespace SymbolTable

variable {table : SymbolTable} {s : Symbol}

/-- As soon as a symbol was issued, even the stand-in for entities without a symbol was. -/
theorem Issues.symbolOf (h : table.Issues s) (name : String) :
    table.Issues (table.symbolOf name) := by
  unfold SymbolTable.symbolOf
  cases hname : table.find? (.entity name "") with
  | some s => exact issues_of_find? hname
  | none =>
    obtain ⟨origin, horigin⟩ := h
    obtain ⟨hlt, -⟩ := List.getElem?_eq_some_iff.mp horigin
    exact ⟨table.origins[0], List.getElem?_eq_getElem (Nat.zero_lt_of_lt hlt)⟩

end SymbolTable

theorem SortMode.mem_storedSymbols_arrange (mode : SortMode) {d : DataDeclaration} {s : Symbol} :
    s ∈ (mode.arrange d).storedSymbols ↔ s ∈ d.storedSymbols := by
  have hunion : (mode.arrange d).unionAlias = d.unionAlias := by
    unfold arrange
    split <;> rfl
  simp only [DataDeclaration.storedSymbols, symbol_arrange, hunion, List.mem_append,
    List.mem_flatMap, supertypes_arrange, mem_types_arrange, DataDeclaration.codeTypes,
    codeNodes_arrange]

namespace Compilation

variable {builder : Builder} (c : Compilation builder)

/-- What types and code may mention if nothing but issued symbols matters. -/
def issuedVocabulary : CodeVocabulary where
  types := { symbol := fun s _ => c.table.Issues s }
  callable _ := True

theorem issues_of_mem_declaredSymbols {s : Symbol} (h : s ∈ c.final.declaredSymbols) :
    c.table.Issues s := by
  obtain ⟨origin, hfound⟩ := c.exists_origin h
  exact SymbolTable.issues_of_find? hfound

section Issued

variable {s : Symbol} (hissued : c.table.Issues s)

include hissued

theorem covered_issuedVocabulary :
    builder.mapper.Covered c.table.symbolOf c.issuedVocabulary.types where
  symbol name _ _ := hissued.symbolOf name
  primitive _ := trivial

omit hissued in
theorem codeScoping_issuedVocabulary : Model.CodeScoping c.final c.issuedVocabulary where
  data d hd _ := c.issues_of_mem_declaredSymbols
    (c.final.mem_declaredSymbols.mpr (Or.inl ⟨d, hd, rfl⟩))
  var _ := trivial
  helper _ _ _ _ := trivial
  parameter _ := trivial

theorem scoping_issuedVocabulary :
    Model.Scoping c.table builder.settings builder.mapper builder.graph.rest c.final
      (fun _ => c.issuedVocabulary.types) fun _ => c.issuedVocabulary.types := by
  refine c.scoping_declared (c.covered_issuedVocabulary hissued) (fun a ha _ => ?_)
    c.codeScoping_issuedVocabulary
  exact c.issues_of_mem_declaredSymbols (c.final.mem_declaredSymbols.mpr
    (Or.inr (List.mem_append_left _ (List.mem_map_of_mem ha))))

/-- The types of a declaration, those in its code included, mention issued symbols only. -/
theorem types_within_issuedVocabulary {d : DataDeclaration} (h : d ∈ c.final.data) :
    ∀ t ∈ d.supertypes ++ d.types ++ d.codeTypes, t.Within c.issuedVocabulary.types := by
  have hscoping := c.scoping_issuedVocabulary hissued
  have hproperties := c.propertiesWithin_reconciled
    (fun _ => c.covered_issuedVocabulary hissued) fun _ _ => trivial
  intro t ht
  rcases List.mem_append.mp ht with ht | ht
  · rcases List.mem_append.mp ht with ht | ht
    · exact c.supertypes_within (c.covered_issuedVocabulary hissued)
        c.codeScoping_issuedVocabulary h t ht
    · exact c.types_within hscoping (fun _ => trivial) h t ht
  · exact (c.codeWithin hscoping c.codeScoping_issuedVocabulary hproperties d h).types t ht

end Issued

theorem issues_of_mem_data {d : DataDeclaration} (h : d ∈ c.final.data) :
    ∀ s ∈ d.storedSymbols, c.table.Issues s := by
  have hissued : c.table.Issues d.symbol :=
    c.issues_of_mem_declaredSymbols (c.final.mem_declaredSymbols.mpr (Or.inl ⟨d, h, rfl⟩))
  intro s hs
  rcases List.mem_append.mp hs with hs | hs
  · rcases List.mem_cons.mp hs with rfl | hs
    · exact hissued
    · have hdeclared := c.unionsDeclared_final (c.scoping_issuedVocabulary hissued) d h s
        (Option.mem_toList.mp hs)
      exact c.issues_of_mem_declaredSymbols
        (c.final.mem_declaredSymbols.mpr (Or.inr (List.mem_append_left _ hdeclared)))
  · obtain ⟨t, ht, hs⟩ := List.mem_flatMap.mp hs
    obtain ⟨args, hnode⟩ := TypeExpr.mem_symbols.mp hs
    exact (c.types_within_issuedVocabulary hissued h t ht).symbol_of_mem hnode

theorem issues_of_mem_aliases {a : AliasDeclaration} (h : a ∈ c.final.aliases) :
    ∀ s ∈ a.symbol :: a.definition.symbols, c.table.Issues s := by
  have hissued : c.table.Issues a.symbol := c.issues_of_mem_declaredSymbols
    (c.final.mem_declaredSymbols.mpr (Or.inr (List.mem_append_left _ (List.mem_map_of_mem h))))
  intro s hs
  rcases List.mem_cons.mp hs with rfl | hs
  · exact hissued
  · obtain ⟨args, hnode⟩ := TypeExpr.mem_symbols.mp hs
    have hwithin := c.definition_within (c.scoping_issuedVocabulary hissued) (fun _ => trivial)
      (fun _ hpromise => SymbolTable.issues_of_find? hpromise) h
    exact hwithin.symbol_of_mem hnode

/-- The symbols that are stored in the declarations of the final model, in any order, were
issued. -/
theorem issues_of_mem_storedSymbols {names : Names} {mode : SortMode} {d : Declaration}
    (h : d ∈ (c.final.order names mode).declarations) :
    ∀ s ∈ d.storedSymbols, c.table.Issues s := by
  intro s hs
  cases d with
  | ofData d =>
    have hd : d ∈ (c.final.order names mode).data := List.mem_filterMap.mpr ⟨_, h, rfl⟩
    obtain ⟨d', hd', rfl⟩ := (c.final.mem_data_order names mode).mp hd
    exact c.issues_of_mem_data hd' s (mode.mem_storedSymbols_arrange.mp hs)
  | ofAlias a =>
    have ha : a ∈ (c.final.order names mode).aliases := List.mem_filterMap.mpr ⟨_, h, rfl⟩
    exact c.issues_of_mem_aliases ((c.final.perm_aliases_order names mode).mem_iff.mp ha) s hs
  | ofEnum e =>
    have he : e ∈ (c.final.order names mode).enums := List.mem_filterMap.mpr ⟨_, h, rfl⟩
    obtain rfl := List.mem_singleton.mp hs
    exact c.issues_of_mem_declaredSymbols (c.final.mem_declaredSymbols.mpr (Or.inr
      (List.mem_append_right _ (List.mem_map_of_mem
        ((c.final.perm_enums_order names mode).mem_iff.mp he)))))

/-- The final model can be written, in any order, with names that are made of its table. -/
theorem emit_order {policy : NamingPolicy} {names : Names}
    (hresolve : c.table.resolve policy = .ok names) (options : EmitOptions) (mode : SortMode) :
    emit options names (c.final.order names mode) =
      .ok (Emission.documentText options names (c.final.order names mode)) := by
  refine emit_eq_ok fun d hd s hs => ?_
  obtain ⟨origin, horigin⟩ := c.issues_of_mem_storedSymbols hd s hs
  have hname := SymbolTable.isSome_fullName?_of_resolve hresolve horigin
  rwa [Names.fullName?, Option.isSome_map] at hname

end Compilation

/-- Compiled declarations can be written, whatever mapper they were compiled with: every symbol that
is stored in them was issued by the table that the names are made of. -/
theorem exists_text_of_compileWith {mapper : Mapper} {graph : SourceGraph} {settings : Settings}
    {out : Compiled} (options : EmitOptions)
    (h : (compileWith mapper graph settings).1 = .ok out) :
    (∃ text, emit options out.names out.model = .ok text) ∧
      ∀ d ∈ out.model.declarations, ∀ s ∈ d.storedSymbols, ∃ origin, out.names.origin? s =
        some origin := by
  obtain ⟨c, hresolve, hmodel, -⟩ := exists_compilation h
  rw [hmodel]
  refine ⟨⟨_, c.emit_order hresolve options settings.sortMode⟩, fun d hd s hs => ?_⟩
  obtain ⟨origin, horigin⟩ := c.issues_of_mem_storedSymbols hd s hs
  exact ⟨origin, (SymbolTable.origin?_of_resolve hresolve s).trans horigin⟩

theorem exists_text_gift :
    ∃ out text, (compileWith (.builtIn giftSettings giftGraph) giftGraph giftSettings).1 = .ok out ∧
      emit {} out.names out.model = .ok text := by
  obtain ⟨out, hout⟩ := exists_compile_gift
  obtain ⟨text, htext⟩ := (exists_text_of_compileWith {} hout).1
  exact ⟨out, text, hout, htext⟩

end Typings
