import Typings.Emission.Document
import Typings.Proofs.Code.Nodes
import Typings.Proofs.Type.Vocabulary

/-!
# Symbols that are written

A document needs the names of the symbols that are written in it. All of them are stored in the
declarations, in the types of their members or in the types that their code mentions.

## Main definitions

* `Declaration.storedSymbols`: all symbols in a declaration.

## Main results

* `Expression.exists_node_of_mem_symbols`, `Statement.symbols_eq_flatMap`: what is written of code.
* `emit_eq_ok`: a document can be written if all stored symbols have names.
-/

namespace Typings

namespace Expression

/-! ## Expressions -/

theorem sizeOf_lt_of_mem_parts {e p : Expression} (h : p ∈ e.parts) : sizeOf p < sizeOf e := by
  cases e with
  | call callee typeArgs args =>
    rcases List.mem_cons.mp h with rfl | harg
    · simp only [call.sizeOf_spec]
      omega
    · have hlt := List.sizeOf_lt_of_mem harg
      simp only [call.sizeOf_spec]
      omega
  | create type args =>
    have hlt : sizeOf p < sizeOf args := List.sizeOf_lt_of_mem h
    simp only [create.sizeOf_spec]
    omega
  | object entries =>
    obtain ⟨⟨key, value⟩, hentry, rfl⟩ := List.mem_filterMap.mp h
    have hlt := List.sizeOf_lt_of_mem hentry
    simp only [Prod.mk.sizeOf_spec, Option.some.sizeOf_spec] at hlt
    simp only [object.sizeOf_spec]
    omega
  | template tag pieces =>
    rcases List.mem_cons.mp h with rfl | hvalue
    · simp only [template.sizeOf_spec]
      omega
    · obtain ⟨piece, hpiece, hvalue⟩ := List.mem_filterMap.mp hvalue
      have hlt := List.sizeOf_lt_of_mem hpiece
      cases piece with
      | literal _ => exact nomatch hvalue
      | substitution value =>
        obtain rfl := Option.some.inj hvalue
        simp only [TemplatePart.substitution.sizeOf_spec] at hlt
        simp only [template.sizeOf_spec]
        omega
  | member _ _ | or _ _ | not _ | assign _ _ | arrow _ _ =>
    simp only [parts, List.mem_cons, List.not_mem_nil, or_false] at h
    rcases h with rfl | rfl <;> simp <;> omega
  | identifier _ | typeName _ | self | super | undefined | text _ => simp [parts] at h

/-- What holds of an expression whenever it holds of its parts holds of every expression. -/
@[elab_as_elim]
theorem partsInduction {motive : Expression → Prop}
    (step : ∀ e : Expression, (∀ p ∈ e.parts, motive p) → motive e) (e : Expression) : motive e :=
  step e fun p _ => partsInduction step p
termination_by sizeOf e
decreasing_by exact sizeOf_lt_of_mem_parts ‹_›

@[simp] theorem symbolsAll_eq_flatMap (es : List Expression) :
    symbolsAll es = es.flatMap symbols := by
  induction es with
  | nil => rfl
  | cons e rest ih => simp [symbolsAll, ih]

@[simp] theorem symbolsEntries_eq_flatMap (entries : List (String × Option Expression)) :
    symbolsEntries entries = (entries.filterMap (·.2)).flatMap symbols := by
  induction entries with
  | nil => rfl
  | cons entry rest ih =>
    obtain ⟨key, value⟩ := entry
    cases value <;> simp [symbolsEntries, ih]

@[simp] theorem symbolsParts_eq_flatMap (parts : List TemplatePart) :
    symbolsParts parts = (parts.filterMap (·.value?)).flatMap symbols := by
  induction parts with
  | nil => rfl
  | cons part rest ih => cases part <;> simp [symbolsParts, TemplatePart.value?, ih]

theorem typeNameSymbols_subset (t : TypeExpr) : typeNameSymbols t ⊆ t.symbols := by
  intro s hs
  cases t with
  | reference symbol args =>
    obtain rfl := List.mem_singleton.mp hs
    exact TypeExpr.mem_symbols.mpr ⟨args, TypeExpr.self_mem_nodes _⟩
  | _ => exact hs

variable {s : Symbol}

/-- A symbol is written at an expression itself or in one of its parts. -/
theorem mem_ownTypes_or_parts {e : Expression} (h : s ∈ e.symbols) :
    (∃ t ∈ e.ownTypes, s ∈ t.symbols) ∨ ∃ p ∈ e.parts, s ∈ p.symbols := by
  cases e with
  | typeName type => exact .inl ⟨type, List.mem_singleton_self _, typeNameSymbols_subset type h⟩
  | call callee types args =>
    simp only [symbols, symbolsAll_eq_flatMap, List.mem_append, List.mem_flatMap] at h
    rcases h with (⟨t, ht, hs⟩ | hs) | ⟨a, ha, hs⟩
    · exact .inl ⟨t, ht, hs⟩
    · exact .inr ⟨callee, List.mem_cons_self, hs⟩
    · exact .inr ⟨a, List.mem_cons_of_mem _ ha, hs⟩
  | create type args =>
    simp only [symbols, symbolsAll_eq_flatMap, List.mem_append, List.mem_flatMap] at h
    exact h.imp_left fun hs => ⟨type, List.mem_singleton_self _, hs⟩
  | arrow params body =>
    simp only [symbols, arrowSymbols, List.mem_append, List.mem_flatMap, Option.mem_toList] at h
    rcases h with hs | ⟨param, hparam, t, ht, hs⟩
    · exact .inr ⟨body, List.mem_singleton_self _, hs⟩
    · exact .inl ⟨t, List.mem_filterMap.mpr ⟨param, hparam, ht⟩, hs⟩
  | template tag pieces =>
    simp only [symbols, symbolsParts_eq_flatMap, List.mem_append, List.mem_flatMap] at h
    rcases h with hs | ⟨p, hp, hs⟩
    · exact .inr ⟨tag, List.mem_cons_self, hs⟩
    · exact .inr ⟨p, List.mem_cons_of_mem _ hp, hs⟩
  | object entries =>
    simp only [symbols, symbolsEntries_eq_flatMap, List.mem_flatMap] at h
    exact .inr h
  | member _ _ | or _ _ | not _ | assign _ _ => exact .inr (by simpa [symbols, parts] using h)
  | identifier _ | self | super | undefined | text _ => simp [symbols] at h

theorem exists_node_of_mem_symbols {e : Expression} (h : s ∈ e.symbols) :
    ∃ n ∈ e.nodes, ∃ t ∈ n.ownTypes, s ∈ t.symbols := by
  induction e using partsInduction with
  | step e ih =>
    rw [nodes_eq]
    rcases mem_ownTypes_or_parts h with hown | ⟨p, hp, hs⟩
    · exact ⟨e, List.mem_cons_self, hown⟩
    · obtain ⟨n, hn, ht⟩ := ih p hp hs
      exact ⟨n, List.mem_cons_of_mem _ (List.mem_flatMap.mpr ⟨p, hp, hn⟩), ht⟩

end Expression

/-! ## Statements -/

namespace Statement

mutual

/-- The symbols of a statement are those of its expressions. -/
theorem symbols_eq_flatMap : ∀ st : Statement, st.symbols = st.expressions.flatMap (·.symbols)
  | returns none => by simp [symbols, expressions]
  | returns (some value) => by simp [symbols, expressions]
  | when condition body => by
    rw [symbols, expressions, symbolsAll_eq_flatMap body, List.flatMap_cons]
  | constant _ value => by simp [symbols, expressions]
  | perform value => by simp [symbols, expressions]
  | switch discriminant cases => by
    rw [symbols, expressions, symbolsCases_eq_flatMap cases, List.flatMap_cons]

theorem symbolsAll_eq_flatMap : ∀ body : List Statement,
    symbolsAll body = (expressionsAll body).flatMap (·.symbols)
  | [] => rfl
  | st :: rest => by
    rw [symbolsAll, expressionsAll, symbols_eq_flatMap st, symbolsAll_eq_flatMap rest,
      List.flatMap_append]

theorem symbolsCases_eq_flatMap : ∀ cases : List (Expression × List Statement),
    symbolsCases cases = (expressionsCases cases).flatMap (·.symbols)
  | [] => rfl
  | (test, body) :: rest => by
    rw [symbolsCases, expressionsCases, symbolsAll_eq_flatMap body, symbolsCases_eq_flatMap rest,
      List.flatMap_append, List.flatMap_cons]

end

/-- A symbol that is written in some code stands in a type that the code mentions. -/
theorem exists_of_mem_symbolsAll {body : List Statement} {s : Symbol} (h : s ∈ symbolsAll body) :
    ∃ n ∈ codeNodes body, ∃ t ∈ n.ownTypes, s ∈ t.symbols := by
  rw [symbolsAll_eq_flatMap, expressionsAll_eq_flatMap] at h
  obtain ⟨e, he, hs⟩ := List.mem_flatMap.mp h
  obtain ⟨st, hst, he⟩ := List.mem_flatMap.mp he
  obtain ⟨n, hn, ht⟩ := Expression.exists_node_of_mem_symbols hs
  exact ⟨n, List.mem_flatMap.mpr ⟨st, hst, List.mem_flatMap.mpr ⟨e, he, hn⟩⟩, ht⟩

end Statement

/-! ## Declarations -/

/-- All symbols in an interface or class: its own, that of its union, and those of its types. -/
def DataDeclaration.storedSymbols (d : DataDeclaration) : List Symbol :=
  d.symbol :: d.unionAlias.toList ++
    (d.supertypes ++ d.types ++ d.codeTypes).flatMap (·.symbols)

def Declaration.storedSymbols : Declaration → List Symbol
  | ofData d => d.storedSymbols
  | ofAlias a => a.symbol :: a.definition.symbols
  | ofEnum e => [e.symbol]

theorem DataDeclaration.mem_storedSymbols_of_type {d : DataDeclaration} {t : TypeExpr} {s : Symbol}
    (ht : t ∈ d.supertypes ++ d.types ++ d.codeTypes) (hs : s ∈ t.symbols) : s ∈ d.storedSymbols :=
  List.mem_append_right _ (List.mem_flatMap.mpr ⟨t, ht, hs⟩)

theorem DataDeclaration.mem_storedSymbols_of_code {d : DataDeclaration} {body : List Statement}
    {s : Symbol} (hbody : Typings.codeNodes body ⊆ d.codeNodes)
    (hs : s ∈ Statement.symbolsAll body) : s ∈ d.storedSymbols := by
  obtain ⟨n, hn, t, ht, hs⟩ := Statement.exists_of_mem_symbolsAll hs
  exact mem_storedSymbols_of_type
    (List.mem_append_right _ (List.mem_flatMap.mpr ⟨n, hbody hn, ht⟩)) hs

theorem DataDeclaration.symbols_subset (d : DataDeclaration) : d.symbols ⊆ d.storedSymbols := by
  have htype : ∀ t ∈ d.types, ∀ s ∈ t.symbols, s ∈ d.storedSymbols := fun t ht s hs =>
    mem_storedSymbols_of_type (List.mem_append_left _ (List.mem_append_right _ ht)) hs
  intro s hs
  simp only [symbols, List.mem_append] at hs
  rcases hs with ((hs | hs) | hs) | hs
  · obtain ⟨t, ht, hs⟩ := List.mem_flatMap.mp hs
    exact mem_storedSymbols_of_type (List.mem_append_left _ (List.mem_append_left _ ht)) hs
  · obtain ⟨p, hp, hs⟩ := List.mem_flatMap.mp hs
    exact htype p.type (by simp [types, List.mem_map_of_mem hp]) s hs
  · split at hs
    case isFalse => exact absurd hs List.not_mem_nil
    case isTrue =>
      obtain ⟨c, hc, hs⟩ := List.mem_flatMap.mp hs
      rcases List.mem_append.mp hs with hs | hs
      · obtain ⟨p, hp, hs⟩ := List.mem_flatMap.mp hs
        refine htype p.type (List.mem_append_right _ (List.mem_flatMap.mpr ⟨c, hc, ?_⟩)) s hs
        exact List.mem_map_of_mem hp
      · refine mem_storedSymbols_of_code (fun n hn => ?_) hs
        exact List.mem_append_right _ (List.mem_flatMap.mpr ⟨c, hc, hn⟩)
  · obtain ⟨m, hm, hs⟩ := List.mem_flatMap.mp hs
    have hmethod : ∀ t ∈ m.parameters.map (·.type) ++ [m.result], t ∈ d.types := fun t ht =>
      List.mem_append_left _ (List.mem_append_right _ (List.mem_flatMap.mpr ⟨m, hm, ht⟩))
    simp only [Method.symbols, List.mem_append] at hs
    rcases hs with (hs | hs) | hs
    · obtain ⟨p, hp, hs⟩ := List.mem_flatMap.mp hs
      exact htype p.type (hmethod _ (List.mem_append_left _ (List.mem_map_of_mem hp))) s hs
    · exact htype m.result (hmethod _ (List.mem_append_right _ (List.mem_singleton_self _))) s hs
    · split at hs
      case isFalse => exact absurd hs List.not_mem_nil
      case isTrue =>
        obtain ⟨body, hbody, hs⟩ := List.mem_flatMap.mp hs
        rw [Option.mem_toList] at hbody
        have hnodes : Typings.codeNodes body ⊆ d.codeNodes := by
          intro n hn
          refine List.mem_append_left _ (List.mem_flatMap.mpr ⟨m, hm, ?_⟩)
          rwa [Method.codeNodes, hbody]
        exact mem_storedSymbols_of_code hnodes hs

theorem Declaration.symbols_subset (d : Declaration) : d.symbols ⊆ d.storedSymbols := by
  cases d with
  | ofData d => exact d.symbols_subset
  | ofAlias a => exact List.subset_cons_self _ _
  | ofEnum e => exact List.nil_subset _

theorem Declaration.symbol_mem_storedSymbols (d : Declaration) : d.symbol ∈ d.storedSymbols := by
  cases d <;> exact List.mem_cons_self

/-! ## Documents -/

/-- A document can be written if all symbols in its declarations have names. -/
theorem emit_eq_ok {options : EmitOptions} {names : Names} {model : OrderedModel}
    (h : ∀ d ∈ model.declarations, ∀ s ∈ d.storedSymbols, (names.name? s).isSome = true) :
    emit options names model = .ok (Emission.documentText options names model) := by
  have hneeded : ∀ s ∈ Emission.neededSymbols model, (names.name? s).isSome = true := by
    intro s hs
    rcases List.mem_append.mp hs with hs | hs
    · obtain ⟨d, hd, rfl⟩ := List.mem_map.mp hs
      exact h d hd _ d.symbol_mem_storedSymbols
    · obtain ⟨d, hd, hs⟩ := List.mem_flatMap.mp hs
      exact h d hd s (d.symbols_subset hs)
  unfold emit
  split
  case h_1 s hfound =>
    have hnone := List.find?_some hfound
    rw [Option.isNone_iff_eq_none] at hnone
    have hsome := hneeded s (List.mem_of_find?_eq_some hfound)
    rw [hnone] at hsome
    exact nomatch hsome
  case h_2 => rfl

end Typings
