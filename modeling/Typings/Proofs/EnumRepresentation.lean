import Typings.Proofs.Lookup
import Typings.Proofs.Model.Representation
import Typings.Proofs.Model.Retyping
import Typings.Proofs.Type.Replacement

/-!
# Representation of enums

Enums of numbers are written with their values, whatever is chosen for enums of texts. These become
aliases of unions of literals, or the unions take the place of references to the aliases, or the
enums are written without values. Inlining is described by the aliases that it leaves out, so that
both ways to use unions agree: what the one declares is what the other one puts in place of a
reference.

## Main definitions

* `TypeExpr.LiteralsOf`: a type is made of the literals of texts.
* `EnumDeclaration.AliasedBy`: an alias stands for an enum of texts.
* `EnumDeclaration.PlacedBy`: an enum is written without values if these are texts.
* `Model.Inlines`: a model has the definitions of aliases in place of references to them.

## Main results

* `TypeExpr.LiteralsOf.ne_bare`: literals refer to nothing.
* `Model.lookup_inlinedEnums_iff`: the record of inlined enums has the definitions of the aliases.
* `Model.representsEnums`: what representing enums does to a model.
-/

namespace Typings

/-! ## Literals -/

namespace TypeExpr

/-- Whether a type is made of the literals of texts: a single one stands alone, none or several form
a union. -/
inductive LiteralsOf : List String → TypeExpr → Prop where
  | single (text : String) : LiteralsOf [text] (.literal (.text text))
  | union {texts : List String} (h : texts.length ≠ 1) :
      LiteralsOf texts (.union (texts.map fun text => .literal (.text text)))

theorem literalsOf_literalUnion (texts : List String) : LiteralsOf texts (literalUnion texts) := by
  unfold literalUnion
  split
  case h_1 text => exact .single text
  case h_2 hmany =>
    refine .union fun hlength => ?_
    obtain ⟨text, htext⟩ := List.length_eq_one_iff.mp hlength
    exact hmany text htext

/-- Literals refer to nothing. -/
theorem LiteralsOf.ne_bare {texts : List String} {t : TypeExpr} (h : LiteralsOf texts t) :
    ∀ n ∈ t.nodes, ∀ s, n ≠ bare s := by
  have hliteral : ∀ text, ∀ n ∈ (literal (.text text)).nodes, ∀ s, n ≠ bare s := by
    intro text
    rw [nodes_eq]
    simp [parts, bare]
  cases h with
  | single text => exact hliteral text
  | union _ =>
    rw [nodes_eq, List.forall_mem_cons]
    refine ⟨by simp [bare], fun n hn => ?_⟩
    obtain ⟨part, hpart, hn⟩ := List.mem_flatMap.mp hn
    obtain ⟨text, -, rfl⟩ := List.mem_map.mp hpart
    exact hliteral text n hn

end TypeExpr

/-! ## Enums -/

/-- Whether a text stands for a member of an enum: its value if that is a text, and its name if
not. -/
def EnumMember.ShownBy (m : EnumMember) (text : String) : Prop :=
  m.value = some (.text text) ∨ (∀ value, m.value ≠ some (.text value)) ∧ text = m.name

namespace EnumDeclaration

/-- Whether an alias stands for an enum: it is defined by the literals of the members, in their
order. -/
structure AliasedBy (e : EnumDeclaration) (a : AliasDeclaration) : Prop where
  symbol : a.symbol = e.symbol
  origin : a.origin = some e.origin
  comments : a.comments = e.comments
  typeParameters : a.typeParameters = []
  definition : ∃ texts, List.Forall₂ EnumMember.ShownBy e.members texts ∧
    TypeExpr.LiteralsOf texts a.definition

/-- Whether an enum is another one with the same members, without their values if these are
texts. -/
structure PlacedBy (e e' : EnumDeclaration) : Prop where
  rest : e' = { e with members := e'.members, representation := e'.representation }
  members : List.Forall₂
    (fun m m' => m' = { m with value := if e.kind = .stringBased then none else m.value })
    e.members e'.members

variable {e : EnumDeclaration}

theorem shownBy_texts (e : EnumDeclaration) :
    List.Forall₂ EnumMember.ShownBy e.members e.texts := by
  unfold texts
  rw [List.forall₂_map_right_iff, List.forall₂_same]
  intro m _
  unfold EnumMember.ShownBy
  rcases hvalue : m.value with _ | literal
  · exact .inr ⟨by simp, rfl⟩
  · cases literal with
    | text text => exact .inl rfl
    | _ => exact .inr ⟨by simp, rfl⟩

theorem aliasedBy_toAlias (e : EnumDeclaration) : e.AliasedBy e.toAlias :=
  ⟨rfl, rfl, rfl, rfl, e.texts, e.shownBy_texts, TypeExpr.literalsOf_literalUnion e.texts⟩

theorem placedBy_placeholder (h : e.kind = .stringBased) : e.PlacedBy e.placeholder := by
  refine ⟨rfl, ?_⟩
  rw [placeholder, List.forall₂_map_right_iff, List.forall₂_same]
  intro m _
  rw [if_pos h]

theorem placedBy_valued (h : e.kind ≠ .stringBased) : e.PlacedBy e.valued := by
  refine ⟨rfl, ?_⟩
  rw [valued, List.forall₂_same]
  intro m _
  rw [if_neg h]

theorem isStringBased_iff : e.isStringBased = true ↔ e.kind = .stringBased :=
  beq_iff_eq

theorem not_isStringBased (e : EnumDeclaration) :
    (!e.isStringBased) = (e.kind == .numberBased) := by
  unfold isStringBased
  cases e.kind <;> rfl

end EnumDeclaration

/-! ## Models -/

/-- Whether a type is the definition of an alias that another type refers to. -/
def Expands (aliases : List AliasDeclaration) (t u : TypeExpr) : Prop :=
  ∃ a ∈ aliases, t = .bare a.symbol ∧ u = a.definition

namespace Model

/-- Whether the enums of a model are represented: none is left for later, and enums of numbers have
their values. -/
structure SettlesEnums (model represented : Model) : Prop where
  not_pending : ∀ e ∈ represented.enums, e.representation ≠ .pending
  numbers : represented.enums.filter (·.kind == .numberBased) =
    (model.enums.filter (·.kind == .numberBased)).map fun e => { e with representation := .valued }

/-- Whether a model is another one without some of its aliases, whose definitions take the place of
references to them in the types of members, at any depth. The definitions are recorded. -/
structure Inlines (aliases : List AliasDeclaration) (aliased inlined : Model) : Prop where
  rest : inlined = { aliased with
    data := inlined.data, aliases := inlined.aliases, inlinedEnums := inlined.inlinedEnums }
  aliases_append : inlined.aliases ++ aliases = aliased.aliases
  retyped : List.Forall₂ (fun d d' => d.Retyped (TypeExpr.ReplacedBy (Expands aliases)) d' ∧
    d'.unionAlias = d.unionAlias) aliased.data inlined.data
  ne_bare : ∀ d ∈ inlined.data, ∀ t ∈ d.types, ∀ n ∈ t.nodes, ∀ a ∈ aliases, n ≠ .bare a.symbol
  recorded : ∀ s t, inlined.inlinedEnums.lookup s = some t ↔
    ∃ a ∈ aliases, a.symbol = s ∧ a.definition = t

variable {model : Model}

/-- Changing enums to ones of the same kind keeps enums of numbers if it gives them their values. -/
theorem filter_map_valued {f : EnumDeclaration → EnumDeclaration} (hkind : ∀ e, (f e).kind = e.kind)
    (hnumber : ∀ e, e.kind = .numberBased → f e = e.valued) (enums : List EnumDeclaration) :
    (enums.map f).filter (·.kind == .numberBased) =
      (enums.filter (·.kind == .numberBased)).map (·.valued) := by
  rw [List.filter_map, Function.comp_def]
  simp only [hkind]
  refine List.map_congr_left fun e he => hnumber e ?_
  exact beq_iff_eq.mp (List.mem_filter.mp he).2

theorem settlesEnums_representEnums (model : Model) (mapping : EnumMapping) :
    model.SettlesEnums (model.representEnums mapping) := by
  have haliased : model.SettlesEnums model.enumsAsAliases := by
    refine ⟨fun e' he' => ?_, ?_⟩
    · obtain ⟨e, -, rfl⟩ := List.mem_map.mp he'
      simp [EnumDeclaration.valued]
    · refine (filter_map_valued (f := .valued) (fun _ => rfl) (fun _ _ => rfl) _).trans
        (congrArg _ ?_)
      rw [List.filter_filter]
      refine List.filter_congr fun e _ => ?_
      rw [e.not_isStringBased, Bool.and_self]
  cases mapping with
  | literalUnion => exact haliased
  | inlinedLiteralUnion => exact ⟨haliased.not_pending, haliased.numbers⟩
  | numericPlaceholder =>
    refine ⟨fun e' he' => ?_, filter_map_valued (fun e => ?_) (fun e he => ?_) _⟩
    · obtain ⟨e, -, rfl⟩ := List.mem_map.mp he'
      split
      · simp [EnumDeclaration.placeholder]
      · simp [EnumDeclaration.valued]
    · split <;> rfl
    · rw [if_neg]
      rw [EnumDeclaration.isStringBased_iff, he]
      decide
  | unmodified =>
    refine ⟨fun e' he' => ?_, filter_map_valued (f := .valued) (fun _ => rfl) (fun _ _ => rfl) _⟩
    obtain ⟨e, -, rfl⟩ := List.mem_map.mp he'
    simp [EnumDeclaration.valued]

theorem placedBy_representEnums (model : Model) : List.Forall₂ EnumDeclaration.PlacedBy model.enums
    (model.representEnums .numericPlaceholder).enums := by
  refine List.forall₂_map_right_iff.mpr (List.forall₂_same.mpr fun e _ => ?_)
  split
  case isTrue htexts => exact e.placedBy_placeholder (EnumDeclaration.isStringBased_iff.mp htexts)
  case isFalse hnumbers =>
    exact e.placedBy_valued (mt EnumDeclaration.isStringBased_iff.mpr hnumbers)

/-! ## Inlined enums -/

section Inlined

def enumAliases (model : Model) : List AliasDeclaration :=
  (model.enums.filter (·.isStringBased)).map (·.toAlias)

theorem literalsOf_of_mem_enumAliases {a : AliasDeclaration} (h : a ∈ model.enumAliases) :
    ∃ texts, TypeExpr.LiteralsOf texts a.definition := by
  obtain ⟨e, -, rfl⟩ := List.mem_map.mp h
  exact ⟨e.texts, TypeExpr.literalsOf_literalUnion e.texts⟩

variable (hfresh : ∀ a ∈ model.aliases, ∀ e ∈ model.enums, a.symbol ≠ e.symbol)
  (hsymbols : (model.enums.map (·.symbol)).Nodup) (hempty : model.inlinedEnums = [])

include hfresh hsymbols hempty

/-- The record of inlined enums has the definitions of their aliases. -/
theorem lookup_inlinedEnums_iff {s : Symbol} {t : TypeExpr} :
    model.enumsInlined.inlinedEnums.lookup s = some t ↔
      ∃ a ∈ model.enumAliases, a.symbol = s ∧ a.definition = t := by
  have hnodup : ((model.enums.filter (·.isStringBased)).reverse.map (·.symbol)).Nodup := by
    rw [List.map_reverse, List.nodup_reverse]
    exact hsymbols.sublist (List.filter_sublist.map _)
  rw [lookup_inlinedEnums_enumsInlined hfresh, hempty, List.lookup_nil, Option.or_none,
    Option.map_eq_some_iff]
  simp only [find?_key_eq_some_iff hnodup, List.mem_reverse]
  constructor
  · rintro ⟨e, ⟨he, rfl⟩, rfl⟩
    exact ⟨e.toAlias, List.mem_map_of_mem he, rfl, rfl⟩
  · rintro ⟨_, ha, rfl, rfl⟩
    obtain ⟨e, he, rfl⟩ := List.mem_map.mp ha
    exact ⟨e, ⟨he, rfl⟩, rfl⟩

theorem replacedBy_inlined (t : TypeExpr) : TypeExpr.ReplacedBy (Expands model.enumAliases) t
    (t.replaceBare fun s => model.enumsInlined.inlinedEnums.lookup s) := by
  refine .replaceBare (fun t u => ?_) t
  simp only [lookup_inlinedEnums_iff hfresh hsymbols hempty]
  constructor
  · rintro ⟨a, ha, rfl, rfl⟩
    exact ⟨a.symbol, rfl, a, ha, rfl, rfl⟩
  · rintro ⟨_, rfl, a, ha, rfl, rfl⟩
    exact ⟨a, ha, rfl, rfl⟩

omit hfresh hsymbols hempty in
/-- No reference to an alias is left where its definition took its place. -/
theorem ne_bare_of_replacedBy {t u : TypeExpr}
    (h : TypeExpr.ReplacedBy (Expands model.enumAliases) t u) :
    ∀ n ∈ u.nodes, ∀ a ∈ model.enumAliases, n ≠ .bare a.symbol := by
  have hnone : ∀ n ∈ u.nodes, ∀ v, ¬Expands model.enumAliases n v := by
    refine h.forall_nodes ?_ ?_
    · rintro _ _ ⟨a, -, rfl, rfl⟩
      rfl
    · rintro _ _ ⟨a, ha, rfl, rfl⟩ n hn v ⟨a', -, hn', -⟩
      obtain ⟨texts, hliterals⟩ := literalsOf_of_mem_enumAliases ha
      exact hliterals.ne_bare n hn a'.symbol hn'
  rintro n hn a ha rfl
  exact hnone _ hn a.definition ⟨a, ha, rfl, rfl⟩

theorem inlines_representEnums : Inlines model.enumAliases (model.representEnums .literalUnion)
    (model.representEnums .inlinedLiteralUnion) := by
  have hretyped : List.Forall₂ (fun d d' =>
      d.Retyped (TypeExpr.ReplacedBy (Expands model.enumAliases)) d' ∧ d'.unionAlias = d.unionAlias)
        model.data (model.representEnums .inlinedLiteralUnion).data := by
    refine List.forall₂_map_right_iff.mpr (List.forall₂_same.mpr fun d _ => ⟨?_, rfl⟩)
    exact .mapTypes fun t _ => replacedBy_inlined hfresh hsymbols hempty t
  refine ⟨rfl, ?_, hretyped, fun d' hd' t ht => ?_, fun s t => ?_⟩
  · exact congrArg (· ++ model.enumAliases) (aliases_enumsInlined hfresh)
  · obtain ⟨d, -, hd, -⟩ := exists_mem_of_forall₂ hretyped hd'
    obtain ⟨_, -, hreplaced⟩ := hd.exists_of_mem_types ht
    exact ne_bare_of_replacedBy hreplaced
  · exact lookup_inlinedEnums_iff hfresh hsymbols hempty

end Inlined

/-- Whatever is chosen, enums of numbers are kept with their values and no choice is left open.
Enums of texts become aliases, in their order, and nothing else changes; or references to these
aliases are replaced by their definitions, and they are not declared; or they are written without
values. -/
theorem representsEnums (model : Model)
    (hdistinct : (model.aliases.map (·.symbol) ++ model.enums.map (·.symbol)).Nodup)
    (hempty : model.inlinedEnums = []) :
    let aliased := model.representEnums .literalUnion
    let placed := model.representEnums .numericPlaceholder
    (∀ mapping, model.SettlesEnums (model.representEnums mapping)) ∧
    (∃ aliases,
      List.Forall₂ EnumDeclaration.AliasedBy (model.enums.filter (·.kind == .stringBased)) aliases ∧
      aliased = { model with aliases := model.aliases ++ aliases, enums := aliased.enums } ∧
      (∀ e ∈ aliased.enums, e.kind = .numberBased) ∧
      Inlines aliases aliased (model.representEnums .inlinedLiteralUnion)) ∧
    placed = { model with enums := placed.enums } ∧
    List.Forall₂ EnumDeclaration.PlacedBy model.enums placed.enums := by
  obtain ⟨-, hsymbols, hdisjoint⟩ := List.nodup_append.mp hdistinct
  have hfresh : ∀ a ∈ model.aliases, ∀ e ∈ model.enums, a.symbol ≠ e.symbol := fun a ha e he =>
    hdisjoint _ (List.mem_map_of_mem ha) _ (List.mem_map_of_mem he)
  refine ⟨model.settlesEnums_representEnums, ⟨model.enumAliases, ?_, rfl, fun e' he' => ?_,
    inlines_representEnums hfresh hsymbols hempty⟩, rfl, model.placedBy_representEnums⟩
  · exact List.forall₂_map_right_iff.mpr (List.forall₂_same.mpr fun e _ => e.aliasedBy_toAlias)
  · obtain ⟨e, he, rfl⟩ := List.mem_map.mp he'
    have hnumbers := (List.mem_filter.mp he).2
    rw [e.not_isStringBased] at hnumbers
    exact beq_iff_eq.mp hnumbers

/-- Enums of two texts, one of which is a name, of one text, of none and of a number. A property
refers to the first three below another reference. -/
def palette : Model where
  data :=
    [{ symbol := ⟨5⟩
       properties :=
        [{ name := "colors", type := .array (.reference ⟨6⟩ [.bare ⟨0⟩, .bare ⟨1⟩, .bare ⟨2⟩]) }] }]
  aliases := [{ symbol := ⟨4⟩, definition := .bare ⟨0⟩ }]
  enums :=
    [{ origin := "Color", symbol := ⟨0⟩
       members := [{ name := "Red", value := some (.text "red") }, { name := "Blue" }] },
      { origin := "Shade", symbol := ⟨1⟩, members := [{ name := "Dark" }] },
      { origin := "Nothing", symbol := ⟨2⟩ },
      { origin := "Level", symbol := ⟨3⟩, kind := .numberBased }]

/-- All references to the enums of texts are inlined. -/
theorem representsEnums_palette :
    (palette.aliases.map (·.symbol) ++ palette.enums.map (·.symbol)).Nodup ∧
    palette.inlinedEnums = [] ∧
    (∃ d ∈ palette.data, ∃ t ∈ d.types, .bare ⟨0⟩ ∈ t.nodes ∧ .bare ⟨1⟩ ∈ t.nodes ∧
      .bare ⟨2⟩ ∈ t.nodes) ∧ ∀ e ∈ palette.enums, e.kind = .stringBased →
      ∀ d ∈ (palette.representEnums .inlinedLiteralUnion).data,
        ∀ t ∈ d.types, .bare e.symbol ∉ t.nodes := by
  have hdistinct : (palette.aliases.map (·.symbol) ++ palette.enums.map (·.symbol)).Nodup := by
    decide
  have hmentioned : ∃ d ∈ palette.data, ∃ t ∈ d.types,
      .bare ⟨0⟩ ∈ t.nodes ∧ .bare ⟨1⟩ ∈ t.nodes ∧ .bare ⟨2⟩ ∈ t.nodes := by
    simp [palette, DataDeclaration.types, TypeExpr.nodes, TypeExpr.nodesAll, TypeExpr.bare]
  obtain ⟨-, ⟨aliases, haliases, -, -, hinlines⟩, -⟩ := representsEnums palette hdistinct rfl
  refine ⟨hdistinct, rfl, hmentioned, fun e he hkind d hd t ht hmem => ?_⟩
  obtain ⟨a, ha, haliased⟩ := exists_mem_of_forall₂ haliases.flip
    (List.mem_filter.mpr ⟨he, beq_iff_eq.mpr hkind⟩)
  exact hinlines.ne_bare d hd t ht _ hmem a ha (by rw [haliased.symbol])

end Model

end Typings
