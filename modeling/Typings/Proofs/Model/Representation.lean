import Typings.Model.Enums
import Typings.Proofs.Model.Dates
import Typings.Proofs.Model.Within
import Typings.Proofs.Session

/-!
# Represented dates and enums

What the choice of a representation does to a model, and to the types in it.

## Main definitions

* `Model.DatesRepresented`: the outcomes of representing dates.

## Main results

* `Model.yields_representDates`: representing dates has one of these outcomes.
* `TypeExpr.Within.replaceDates`: no date is left in a type.
* `Model.lookup_inlinedEnums_enumsInlined`: exactly the enums of texts are inlined.
-/

namespace Typings

open Work

/-! ## Dates -/

variable {mapping : DateMapping} {t : TypeExpr} {voc voc' : Vocabulary}

theorem TypeExpr.isTemporal_iff : t.isTemporal = true ↔ t = .temporal := by
  unfold isTemporal
  split <;> simp_all

/-- Replacing the dates of a type leads to a vocabulary that has the alias and all other nodes. -/
theorem TypeExpr.Within.replaceDates {symbol : Symbol} (h : t.Within voc)
    (hsymbol : voc'.symbol symbol 0)
    (hold : ∀ n : TypeExpr, n.isTemporal = false → voc.Admits n → voc'.Admits n) :
    (t.transform fun n => if n.isTemporal then .bare symbol else n).Within voc' := by
  refine h.transform fun n hn hparts => ?_
  cases hdate : n.isTemporal with
  | true => exact within_reference.mpr ⟨hsymbol, by simp⟩
  | false => exact within_iff.mpr ⟨hold n hdate hn, hparts⟩

/-- The vocabulary without dates, unless they are kept. -/
def Vocabulary.dated (voc : Vocabulary) (mapping : DateMapping) : Vocabulary :=
  { voc with primitive := fun k => voc.primitive k ∧ (mapping = .unmodified ∨ k ≠ .temporal) }

theorem Vocabulary.admits_dated {n : TypeExpr} :
    (voc.dated mapping).Admits n ↔
      voc.Admits n ∧ (mapping = .unmodified ∨ n.isTemporal = false) := by
  cases n with
  | primitive k => cases k <;> simp [Admits, dated, TypeExpr.isTemporal]
  | _ => simp [Admits, dated, TypeExpr.isTemporal]

theorem Vocabulary.dated_le (voc : Vocabulary) (mapping : DateMapping) :
    (voc.dated mapping).Le voc where
  symbol _ _ hs := hs
  var _ hv := hv
  primitive _ hk := hk.1

theorem Vocabulary.le_dated (h : mapping = .unmodified) :
    voc.Le (voc.dated mapping) where
  symbol _ _ hs := hs
  var _ hv := hv
  primitive _ hk := ⟨hk, .inl h⟩

theorem TypeExpr.Within.dated (h : t.Within voc) (hdates : ∀ n ∈ t.nodes, n.isTemporal = false) :
    t.Within (voc.dated mapping) :=
  fun n hn => Vocabulary.admits_dated.mpr ⟨h n hn, .inr (hdates n hn)⟩

/-- Dates are represented by numbers or by texts. -/
theorem DateMapping.definition_of_alias? {name : String} {definition : TypeExpr}
    (h : mapping.alias? = some (name, definition)) :
    definition = .number ∨ definition = .string := by
  cases mapping with
  | unmodified => cases h
  | asNumber =>
    obtain ⟨-, rfl⟩ := Prod.mk.inj (Option.some.inj h)
    exact .inl rfl
  | asString =>
    obtain ⟨-, rfl⟩ := Prod.mk.inj (Option.some.inj h)
    exact .inr rfl

theorem DateMapping.alias?_eq_none : mapping.alias? = none ↔ mapping = .unmodified := by
  cases mapping <;> simp [alias?]

namespace Model

variable {model model' : Model} {lo hi : SymbolTable} {mapping : DateMapping}
  {selects : DataDeclaration → Bool}

/-- The model with the dates of selected declarations replaced, and the alias declared. -/
def withDates (model : Model) (selects : DataDeclaration → Bool) (symbol : Symbol)
    (definition : TypeExpr) : Model :=
  { model.replaceDates selects symbol with
    aliases :=
      if (model.findAlias? symbol).isSome then model.aliases
      else model.aliases ++ [{ symbol, definition }] }

/-- The outcomes of representing the dates of selected declarations: the model is kept if there is
nothing to do, otherwise the dates are replaced by an alias. -/
inductive DatesRepresented (table : SymbolTable) (mapping : DateMapping)
    (selects : DataDeclaration → Bool) (model : Model) : Model → Prop where
  | kept (h : mapping.alias? = none ∨ model.dateCount selects = 0) :
      DatesRepresented table mapping selects model model
  | replaced {name : String} {definition : TypeExpr} {symbol : Symbol}
      (halias : mapping.alias? = some (name, definition))
      (hsymbol : table.find? (.synthetic name) = some symbol) :
      DatesRepresented table mapping selects model (model.withDates selects symbol definition)

/-- Representing dates has one of these outcomes. -/
theorem yields_representDates :
    Yields lo hi (model.representDates mapping selects)
      (DatesRepresented hi mapping selects model) := by
  rw [representDates_eq, countAndReplaceDates]
  split
  case h_1 hnone => exact .pure (.kept (Or.inl hnone))
  case h_2 name definition halias =>
    dsimp only
    split
    case isTrue hcount => exact .pure (.kept (Or.inr hcount))
    case isFalse =>
      refine .bind (yields_syntheticSymbol name) fun symbol => ?_
      have hdone : ∀ result, model.withDates selects symbol definition = result →
          hi.find? (.synthetic name) = some symbol →
            DatesRepresented hi mapping selects model result := by
        rintro _ rfl hsymbol
        exact .replaced halias hsymbol
      split
      case isTrue hfound =>
        refine .pure (hdone _ ?_)
        rw [withDates, if_pos hfound]
        rfl
      case isFalse hfound =>
        refine .bind (yields_report _ _ _) fun _ => .pure fun _ => hdone _ ?_
        rw [withDates, if_neg hfound]
        rfl

theorem symbol_mem_aliases_withDates (model : Model) (selects : DataDeclaration → Bool)
    (symbol : Symbol) (definition : TypeExpr) :
    symbol ∈ (model.withDates selects symbol definition).aliases.map (·.symbol) := by
  rw [withDates]
  split
  case isTrue hfound => exact isSome_findAlias?.mp hfound
  case isFalse => simp

namespace DatesRepresented

variable (h : DatesRepresented hi mapping selects model model')

include h

theorem frames : model'.frames = model.frames := by
  cases h with
  | kept _ => rfl
  | replaced _ _ => exact frames_mapDataTypes _ _

theorem enums : model'.enums = model.enums := by
  cases h with
  | kept _ => rfl
  | replaced _ _ => rfl

theorem helpers : model'.helpers = model.helpers := by
  cases h with
  | kept _ => rfl
  | replaced _ _ => rfl

theorem inlinedEnums : model'.inlinedEnums = model.inlinedEnums := by
  cases h with
  | kept _ => rfl
  | replaced _ _ => rfl

/-- An alias is one that was there, or the one for dates. -/
theorem mem_aliases {a : AliasDeclaration} (ha : a ∈ model'.aliases) :
    a ∈ model.aliases ∨ ∃ name definition, mapping.alias? = some (name, definition) ∧
      hi.find? (.synthetic name) = some a.symbol ∧ a = { symbol := a.symbol, definition } := by
  cases h with
  | kept _ => exact .inl ha
  | @replaced name definition symbol halias hsymbol =>
    simp only [withDates] at ha
    split at ha
    · exact .inl ha
    · refine (List.mem_append.mp ha).imp_right fun ha => ?_
      rw [List.mem_singleton.mp ha]
      exact ⟨name, definition, halias, hsymbol, rfl⟩

theorem aliases_subset : model.aliases ⊆ model'.aliases := by
  cases h with
  | kept _ => exact List.Subset.refl _
  | replaced _ _ =>
    unfold withDates
    dsimp only
    split
    · exact List.Subset.refl _
    · exact List.subset_append_left _ _

/-- The dates of selected declarations are rewritten to an alias of the model. -/
theorem rewritten (hselects : ∀ d, selects d.frame = selects d)
    {scope : DataDeclaration → Vocabulary}
    (halias : ∀ d, ∀ a ∈ model'.aliases, (scope d).symbol a.symbol 0) :
    Rewritten scope (fun d => if selects d then (scope d).dated mapping else scope d)
      model model' := by
  cases h with
  | kept hnothing =>
    intro d hd
    refine ⟨d, hd, ?_⟩
    simp only [hselects]
    split
    case isFalse => exact .refl (.refl _)
    case isTrue hsel =>
      rcases hnothing with hnone | hcount
      · exact .refl (Vocabulary.le_dated (DateMapping.alias?_eq_none.mp hnone))
      · refine .of_types fun t ht names hwithin => hwithin.dated fun n hn => ?_
        simp only [dateCount, List.countP_eq_zero, Bool.not_eq_true] at hcount
        have hd' : d ∈ model.data.filter selects := List.mem_filter.mpr ⟨hd, hsel⟩
        exact hcount n (List.mem_flatMap.mpr ⟨d, hd', List.mem_flatMap.mpr ⟨t, ht, hn⟩⟩)
  | @replaced name definition symbol _ _ =>
    obtain ⟨a, ha, rfl⟩ := List.mem_map.mp
      (symbol_mem_aliases_withDates model selects symbol definition)
    have hdata : (model.withDates selects a.symbol definition).data =
        (model.replaceDates selects a.symbol).data := rfl
    refine .congr_data (.mapDataTypes hselects (fun d hsel names t ht => ?_) fun d hsel => ?_) hdata
    · rw [if_pos hsel]
      exact ht.replaceDates (halias d a ha) fun n hdate hn =>
        Vocabulary.admits_dated.mpr ⟨hn, .inr hdate⟩
    · rw [hsel]
      exact .refl _

end DatesRepresented

/-! ## Enums -/

end Model

/-- Whether all that may occur by one vocabulary may occur by another one, references to inlined
enums apart. -/
def Vocabulary.Inlines (inlined : List (Symbol × TypeExpr)) (voc voc' : Vocabulary) : Prop :=
  ∀ n : TypeExpr, n.bareSymbol?.bind (inlined.lookup ·) = none → voc.Admits n → voc'.Admits n

theorem Vocabulary.Le.inlines (h : voc.Le voc') (inlined : List (Symbol × TypeExpr)) :
    Vocabulary.Inlines inlined voc voc' :=
  fun _ _ hn => h.admits hn

theorem Vocabulary.Inlines.le_of_nil (h : Inlines [] voc voc') :
    voc.Le voc' where
  symbol s n hs := by
    have hargs : (List.replicate n TypeExpr.any).length = n := List.length_replicate
    rw [← hargs] at hs ⊢
    exact h (.reference s (List.replicate n .any)) (by simp) hs
  var v := h (.var v) rfl
  primitive k := h (.primitive k) rfl

theorem Vocabulary.Inlines.binding {inlined : List (Symbol × TypeExpr)}
    (h : Inlines inlined voc voc') (names : List String) :
    Inlines inlined (voc.binding names) (voc'.binding names) := by
  intro n hnone hn
  cases n with
  | reference s args => exact h (.reference s args) hnone hn
  | var v => exact hn.imp_left (h (.var v) rfl)
  | primitive k => exact h (.primitive k) rfl hn
  | _ => trivial

/-! ### The record of inlined enums -/

theorem lookup_insertBySymbol {α : Type} (s k : Symbol) (value : α) (entries : List (Symbol × α)) :
    (insertBySymbol s value entries).lookup k = if k = s then some value else entries.lookup k := by
  induction entries with
  | nil => grind [insertBySymbol]
  | cons entry rest ih =>
    obtain ⟨key, old⟩ := entry
    rw [insertBySymbol]
    split_ifs with hlt heq hk hk <;> grind

theorem lookup_foldl_insertBySymbol {s : Symbol} (aliases : List AliasDeclaration)
    (entries : List (Symbol × TypeExpr)) :
    (aliases.foldl (fun entries a => insertBySymbol a.symbol a.definition entries)
      entries).lookup s =
      ((aliases.reverse.find? (·.symbol == s)).map (·.definition)).or (entries.lookup s) := by
  induction aliases generalizing entries with
  | nil => simp
  | cons a rest ih =>
    rw [List.foldl_cons, ih, lookup_insertBySymbol, List.reverse_cons, List.find?_append]
    grind

namespace Model

variable {model model' : Model}

@[simp] theorem frames_representEnums (mapping : EnumMapping) :
    (model.representEnums mapping).frames = model.frames := by
  cases mapping with
  | inlinedLiteralUnion => exact frames_mapDataTypes _ _
  | literalUnion | numericPlaceholder | unmodified => rfl

@[simp] theorem helpers_representEnums (mapping : EnumMapping) :
    (model.representEnums mapping).helpers = model.helpers := by
  cases mapping <;> rfl

theorem data_representEnums {mapping : EnumMapping} (h : mapping ≠ .inlinedLiteralUnion) :
    (model.representEnums mapping).data = model.data := by
  cases mapping with
  | inlinedLiteralUnion => exact absurd rfl h
  | literalUnion | numericPlaceholder | unmodified => rfl

theorem inlinedEnums_representEnums {mapping : EnumMapping} (h : mapping ≠ .inlinedLiteralUnion) :
    (model.representEnums mapping).inlinedEnums = model.inlinedEnums := by
  cases mapping with
  | inlinedLiteralUnion => exact absurd rfl h
  | literalUnion | numericPlaceholder | unmodified => rfl

/-- Whether the recorded definitions of inlined enums are unions of literals. -/
def InlinesLiterals (model : Model) : Prop :=
  ∀ s t, model.inlinedEnums.lookup s = some t → ∃ texts, t = .literalUnion texts

/-- References to inlined enums are rewritten to their values in selected declarations. -/
theorem Rewritten.inlineEnums {selects : DataDeclaration → Bool}
    {scope scope' : DataDeclaration → Vocabulary} (hselects : ∀ d, selects d.frame = selects d)
    (hliterals : model.InlinesLiterals)
    (hinlines : ∀ d, selects d = true → Vocabulary.Inlines model.inlinedEnums (scope d) (scope' d))
    (hle : ∀ d, selects d = false → (scope d).Le (scope' d)) :
    Rewritten scope scope' model (model.inlineEnums selects) := by
  refine .mapDataTypes hselects (fun d hsel names t ht => ?_) hle
  refine ht.replaceBare (fun s r hr => ?_) ((hinlines d hsel).binding names)
  obtain ⟨texts, rfl⟩ := hliterals s r hr
  exact .literalUnion texts

section Inlined

variable (hfresh : ∀ a ∈ model.aliases, ∀ e ∈ model.enums, a.symbol ≠ e.symbol)

include hfresh

/-- Where no alias has the symbol of an enum, the enums of texts are recorded and not declared. -/
theorem filter_aliases_enumsAsAliases :
    let converted := (model.enums.filter (·.isStringBased)).map (·.symbol)
    model.enumsAsAliases.aliases.filter (converted.contains ·.symbol) =
        (model.enums.filter (·.isStringBased)).map (·.toAlias) ∧
      model.enumsAsAliases.aliases.filter (fun a => !converted.contains a.symbol) =
        model.aliases := by
  intro converted
  have hold : ∀ a ∈ model.aliases, converted.contains a.symbol = false := by
    intro a ha
    simp only [List.contains_eq_mem, decide_eq_false_iff_not, converted, List.mem_map, not_exists,
      not_and]
    intro e he
    exact (hfresh a ha e (List.mem_of_mem_filter he)).symm
  have hnew : ∀ a ∈ (model.enums.filter (·.isStringBased)).map (·.toAlias),
      converted.contains a.symbol = true := by
    intro a ha
    obtain ⟨e, he, rfl⟩ := List.mem_map.mp ha
    exact List.contains_iff_mem.mpr (List.mem_map_of_mem he)
  simp only [enumsAsAliases, List.filter_append]
  constructor
  · rw [List.filter_eq_nil_iff.mpr (by simpa using hold), List.filter_eq_self.mpr hnew,
      List.nil_append]
  · rw [List.filter_eq_self.mpr (by simpa using hold),
      List.filter_eq_nil_iff.mpr (by simpa using hnew), List.append_nil]

theorem aliases_enumsInlined : model.enumsInlined.aliases = model.aliases :=
  (filter_aliases_enumsAsAliases hfresh).2

theorem lookup_inlinedEnums_enumsInlined (s : Symbol) :
    model.enumsInlined.inlinedEnums.lookup s =
      ((((model.enums.filter (·.isStringBased)).reverse.find? (·.symbol == s)).map fun e =>
        .literalUnion e.texts).or (model.inlinedEnums.lookup s)) := by
  have hrecord : model.enumsInlined.inlinedEnums =
      ((model.enums.filter (·.isStringBased)).map (·.toAlias)).foldl
        (fun entries a => insertBySymbol a.symbol a.definition entries) model.inlinedEnums := by
    rw [← (filter_aliases_enumsAsAliases hfresh).1]
    rfl
  rw [hrecord, lookup_foldl_insertBySymbol, ← List.map_reverse, List.find?_map]
  simp [Function.comp_def, EnumDeclaration.toAlias]

end Inlined

/-- The enums that are declared, as aliases or as enums. -/
def keptEnums (mapping : EnumMapping) (model : Model) : List EnumDeclaration :=
  if mapping = .inlinedLiteralUnion then model.enums.filter (!·.isStringBased) else model.enums

section Represented

variable (hfresh : ∀ a ∈ model.aliases, ∀ e ∈ model.enums, a.symbol ≠ e.symbol)

include hfresh

/-- The aliases and enums declare the symbols of the aliases before and of the enums that are
kept. -/
theorem perm_representEnums (mapping : EnumMapping) :
    ((model.representEnums mapping).aliases.map (·.symbol) ++
        (model.representEnums mapping).enums.map (·.symbol)).Perm
      (model.aliases.map (·.symbol) ++ (model.keptEnums mapping).map (·.symbol)) := by
  cases mapping with
  | inlinedLiteralUnion =>
    simp only [representEnums, aliases_enumsInlined hfresh, keptEnums, if_true]
    simp only [enumsInlined, inlineEnums, mapDataTypes, enumsAsAliases, List.map_map]
    exact .refl _
  | literalUnion =>
    have hsplit := (List.filter_append_perm (·.isStringBased) model.enums).map (·.symbol)
    rw [List.map_append] at hsplit
    simp only [representEnums, enumsAsAliases, keptEnums, List.map_append, List.map_map,
      List.append_assoc]
    exact hsplit.append_left _
  | numericPlaceholder =>
    refine .of_eq ?_
    simp only [representEnums, List.map_map]
    congr 1
    refine List.map_congr_left fun e _ => ?_
    simp only [Function.comp]
    split <;> rfl
  | unmodified =>
    simp only [representEnums, List.map_map]
    exact .refl _

/-- An alias is one that was there, or stands for an enum of texts. -/
theorem mem_aliases_representEnums {mapping : EnumMapping} {a : AliasDeclaration}
    (h : a ∈ (model.representEnums mapping).aliases) :
    a ∈ model.aliases ∨ mapping = .literalUnion ∧
      ∃ e ∈ model.enums, e.isStringBased = true ∧ a = e.toAlias := by
  cases mapping with
  | literalUnion =>
    refine (List.mem_append.mp h).imp_right fun ha => ?_
    obtain ⟨e, he, rfl⟩ := List.mem_map.mp ha
    obtain ⟨he, htexts⟩ := List.mem_filter.mp he
    exact ⟨rfl, e, he, htexts, rfl⟩
  | inlinedLiteralUnion => exact .inl (aliases_enumsInlined hfresh ▸ h)
  | numericPlaceholder | unmodified => exact .inl h

theorem aliases_subset_representEnums (mapping : EnumMapping) :
    model.aliases ⊆ (model.representEnums mapping).aliases := by
  cases mapping with
  | literalUnion => exact List.subset_append_left _ _
  | inlinedLiteralUnion => exact (aliases_enumsInlined hfresh).symm ▸ List.Subset.refl _
  | numericPlaceholder | unmodified => exact List.Subset.refl _

variable (hempty : model.inlinedEnums = [])

include hempty

theorem inlinesLiterals_representEnums (mapping : EnumMapping) :
    (model.representEnums mapping).InlinesLiterals := by
  intro s t h
  cases mapping with
  | inlinedLiteralUnion =>
    rw [representEnums, lookup_inlinedEnums_enumsInlined hfresh, hempty, List.lookup_nil,
      Option.or_none] at h
    obtain ⟨e, -, rfl⟩ := Option.map_eq_some_iff.mp h
    exact ⟨e.texts, rfl⟩
  | literalUnion | numericPlaceholder | unmodified =>
    rw [inlinedEnums_representEnums (by simp), hempty] at h
    exact nomatch h

/-- Where enums are inlined, every enum of texts is. -/
theorem isSome_lookup_representEnums {e : EnumDeclaration} (he : e ∈ model.enums)
    (htexts : e.isStringBased = true) :
    ((model.representEnums .inlinedLiteralUnion).inlinedEnums.lookup e.symbol).isSome = true := by
  rw [representEnums, lookup_inlinedEnums_enumsInlined hfresh, hempty, List.lookup_nil,
    Option.or_none, Option.isSome_map, List.find?_isSome]
  exact ⟨e, List.mem_reverse.mpr (List.mem_filter.mpr ⟨he, htexts⟩), by simp⟩

/-- References to inlined enums are rewritten to their values. -/
theorem rewritten_representEnums {mapping : EnumMapping}
    {scope scope' : DataDeclaration → Vocabulary}
    (h : ∀ d, Vocabulary.Inlines (model.representEnums mapping).inlinedEnums (scope d) (scope' d)) :
    Rewritten scope scope' model (model.representEnums mapping) := by
  have hliterals := inlinesLiterals_representEnums hfresh hempty mapping
  cases mapping with
  | inlinedLiteralUnion =>
    exact .inlineEnums (fun _ => rfl) hliterals (fun d _ => h d) nofun
  | literalUnion | numericPlaceholder | unmodified =>
    rw [inlinedEnums_representEnums (by simp), hempty] at h
    exact .of_data_eq rfl fun d => (h d).le_of_nil

end Represented

/-! ## Optional properties -/

section OptionalForm

variable (form : OptionalForm)

@[simp] theorem frames_withOptionalForm : (model.withOptionalForm form).frames = model.frames := by
  unfold withOptionalForm
  split
  · rfl
  · exact frames_map fun d => by split <;> rfl

@[simp] theorem aliases_withOptionalForm :
    (model.withOptionalForm form).aliases = model.aliases := by
  unfold withOptionalForm
  split <;> rfl

@[simp] theorem enums_withOptionalForm : (model.withOptionalForm form).enums = model.enums := by
  unfold withOptionalForm
  split <;> rfl

@[simp] theorem helpers_withOptionalForm :
    (model.withOptionalForm form).helpers = model.helpers := by
  unfold withOptionalForm
  split <;> rfl

@[simp] theorem inlinedEnums_withOptionalForm :
    (model.withOptionalForm form).inlinedEnums = model.inlinedEnums := by
  unfold withOptionalForm
  split <;> rfl

/-- Optional properties are rewritten to unions with built-in types. -/
theorem Rewritten.withOptionalForm {scope : DataDeclaration → Vocabulary}
    (hprimitive : ∀ d k, k ≠ .temporal → (scope d).primitive k) :
    Rewritten scope scope model (model.withOptionalForm form) := by
  unfold Model.withOptionalForm
  split
  · exact .of_data_eq rfl fun _ => .refl _
  · intro d' hd'
    obtain ⟨d, hd, rfl⟩ := List.mem_map.mp hd'
    refine ⟨d, hd, ?_⟩
    split
    · refine ⟨rfl, rfl, rfl, fun h p hp => ?_, fun h => ⟨h.methods, h.ctor⟩⟩
      obtain ⟨q, hq, rfl⟩ := List.mem_map.mp hp
      exact (h q hq).optionalForm (hprimitive _ _ (by simp)) (hprimitive _ _ (by simp))
    · exact .refl (.refl _)

end OptionalForm

end Model

end Typings
