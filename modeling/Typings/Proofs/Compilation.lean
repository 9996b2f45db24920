import Typings.Compile
import Typings.Proofs.Model.Build
import Typings.Proofs.Model.Inherited
import Typings.Proofs.Model.Services

/-!
# Compilations

A compilation passes through a sequence of models. What holds of the declarations at the end is
shown here once for all vocabularies: from what the properties of the built classes mention follows
what all types and all code of the final model mention.

## Main definitions

* `Compilation`: the models that a compilation passes through.

## Main results

* `Compilation.propertiesWithin`, `Compilation.membersWithin`, `Compilation.codeWithin`: what occurs
  in the final model.
-/

namespace Typings

open Work

namespace Model

variable {model : Model} {lo hi : SymbolTable} {settings : Settings}

/-- The outcomes of declaring unions: there is nothing to do, or every base has an alias, which is
used in its place. -/
inductive United (lo hi : SymbolTable) (settings : Settings) (model : Model) : Model → Prop where
  | kept (h : settings.taggedUnions = false) : United lo hi settings model model
  | declared {unions : List (Symbol × AliasDeclaration)} (h : settings.taggedUnions = true)
      (hunions : List.Forall₂ (IsUnionOf lo hi model) model.unionBases unions) :
      United lo hi settings model ((model.withUnions unions).useUnions fun _ => true)

theorem yields_unite : Yields lo hi (model.unite settings) (United lo hi settings model) := by
  unfold unite
  split
  case isTrue h =>
    refine yields_declareUnions.mono ?_
    rintro _ ⟨unions, hunions, rfl⟩
    exact .declared h hunions
  case isFalse h => exact .pure (.kept (by simpa using h))

namespace United

variable {united : Model} (h : United lo hi settings model united)

include h

theorem frames_eq : united.frames = model.frames := by
  cases h with
  | kept _ => rfl
  | declared _ _ => rw [frames_useUnions, frames_withUnions]

theorem precedes : Precedes model united := by
  cases h with
  | kept _ => exact .of_frames rfl (List.Subset.refl _) rfl
  | declared _ _ =>
    refine .of_frames (by rw [frames_useUnions, frames_withUnions]) ?_ rfl
    exact List.subset_append_left _ _

theorem inlinedEnums_eq : united.inlinedEnums = model.inlinedEnums := by
  cases h <;> rfl

theorem enums_eq : united.enums = model.enums := by
  cases h <;> rfl

theorem unionsDeclared (hmodel : model.UnionsDeclared) : united.UnionsDeclared := by
  cases h with
  | kept _ => exact hmodel
  | declared _ _ => exact hmodel.withUnions.useUnions

variable {scope : DataDeclaration → Vocabulary} (hunions : model.UnionsDeclared)
  (haliased : ∀ d, ∀ a ∈ united.aliases, ∀ n, (scope d).symbol a.symbol n)

include hunions haliased

theorem propertiesWithin (hmodel : model.PropertiesWithin scope) :
    united.PropertiesWithin scope := by
  cases h with
  | kept _ => exact hmodel
  | declared _ _ =>
    exact (Rewritten.useUnions (fun _ => rfl) hunions.withUnions haliased).properties
      hmodel.withUnions

theorem membersWithin (hmodel : model.MembersWithin scope) : united.MembersWithin scope := by
  cases h with
  | kept _ => exact hmodel
  | declared _ _ =>
    exact (Rewritten.useUnions (fun _ => rfl) hunions.withUnions haliased).members hmodel.withUnions

theorem codeWithin {voc : CodeVocabulary} (hmodel : model.CodeWithin voc) :
    united.CodeWithin voc := by
  cases h with
  | kept _ => exact hmodel
  | declared _ _ =>
    exact (Rewritten.useUnions (fun _ => rfl) hunions.withUnions haliased).code hmodel.withUnions

end United

/-- What serving a model with the application of a graph makes of it. -/
def ServedFor (hi : SymbolTable) (settings : Settings) (mapper : Mapper) (rest : Option Application)
    (model served : Model) : Prop :=
  match rest with
  | some application => Served hi application settings mapper model served
  | none => served = model

theorem yields_serve {mapper : Mapper} {rest : Option Application} :
    Yields lo hi (model.serve settings mapper rest) (ServedFor hi settings mapper rest model) := by
  cases rest with
  | some application => exact yields_withServices
  | none => exact .pure rfl

end Model

/-- The models that a compilation passes through, with the symbols that are issued when the model is
built and at the end. -/
structure Compilation (builder : Builder) where
  early : SymbolTable
  table : SymbolTable
  built : Model
  dated : Model
  united : Model
  served : Model
  grows : early ≤ table
  builds : builder.BuildsModel table.symbolOf built
  issued : ∀ name ∈ builder.graph.declaredNames,
    early.find? (.entity name "") = some (table.symbolOf name)
  dates : Model.DatesRepresented table builder.settings.dateMapping (fun _ => true)
    built.withoutRestated.withImplemented dated
  unites : Model.United early table builder.settings
    (dated.representEnums builder.settings.enumMapping) united
  serves : Model.ServedFor table builder.settings builder.mapper builder.graph.rest
    (united.revive builder.settings) served

namespace Compilation

variable {builder : Builder} (c : Compilation builder)

/-- The model with each property in its place. -/
def reconciled : Model := c.built.withoutRestated.withImplemented

def represented : Model := c.dated.representEnums builder.settings.enumMapping

/-- The model whose classes can be revived, if it is wanted. -/
def revived : Model := c.united.revive builder.settings

/-- The model at the end. -/
def final : Model := c.served.withOptionalForm builder.settings.optionalProperties

/-! ## Symbols -/

theorem find?_entity {name : String} (h : name ∈ builder.graph.declaredNames) :
    c.table.find? (.entity name "") = some (c.table.symbolOf name) :=
  SymbolTable.find?_mono c.grows (c.issued name h)

theorem enums_dated :
    c.dated.enums = builder.graph.enums.map (Builder.enumImage c.table.symbolOf) :=
  c.dates.enums.trans c.builds.enums

theorem inlinedEnums_dated : c.dated.inlinedEnums = [] :=
  c.dates.inlinedEnums.trans c.builds.inlinedEnums

variable {a : AliasDeclaration} {d : DataDeclaration}

/-- An alias before enums are represented is the one for dates. -/
theorem exists_of_mem_aliases_dated (h : a ∈ c.dated.aliases) :
    ∃ name definition, builder.settings.dateMapping.alias? = some (name, definition) ∧
      c.table.find? (.synthetic name) = some a.symbol ∧ a = { symbol := a.symbol, definition } := by
  refine (c.dates.mem_aliases h).resolve_left fun hbuilt => ?_
  have hempty : c.built.withoutRestated.withImplemented.aliases = [] := c.builds.aliases
  exact List.not_mem_nil (hempty ▸ hbuilt)

/-- The alias for dates does not have the symbol of an enum. -/
theorem fresh_dated : ∀ a ∈ c.dated.aliases, ∀ e ∈ c.dated.enums, a.symbol ≠ e.symbol := by
  intro a ha e he heq
  obtain ⟨name, -, -, hsynthetic, -⟩ := c.exists_of_mem_aliases_dated ha
  rw [c.enums_dated] at he
  obtain ⟨source, hsource, rfl⟩ := List.mem_map.mp he
  have hentity : c.table.find? (.entity source.name "") = some a.symbol :=
    (c.find?_entity (List.mem_append_right _ (List.mem_map_of_mem hsource))).trans
      (congrArg some heq.symm)
  exact nomatch SymbolTable.find?_injective hsynthetic hentity

/-! ## Stages -/

theorem inlinesLiterals : c.represented.InlinesLiterals :=
  Model.inlinesLiterals_representEnums c.fresh_dated c.inlinedEnums_dated _

theorem inlinedEnums_revived : c.revived.inlinedEnums = c.represented.inlinedEnums := by
  unfold revived Model.revive
  split
  · exact (Model.inlinedEnums_withHelper c.united _).trans c.unites.inlinedEnums_eq
  · exact c.unites.inlinedEnums_eq

theorem inlinesLiterals_revived : c.revived.InlinesLiterals := by
  rw [Model.InlinesLiterals, c.inlinedEnums_revived]
  exact c.inlinesLiterals

theorem frames_represented : c.represented.frames = c.built.frames := by
  rw [represented, Model.frames_representEnums, c.dates.frames, Model.frames_withImplemented,
    Model.frames_withoutRestated]

theorem frames_united : c.united.frames = c.built.frames :=
  c.unites.frames_eq.trans c.frames_represented

theorem frames_revived : c.revived.frames = c.built.frames := by
  rw [revived, Model.revive]
  split
  · rw [Model.frames_withRevival, c.frames_united]
  · exact c.frames_united

theorem aliases_revived : c.revived.aliases = c.united.aliases := by
  unfold revived Model.revive
  split
  · exact Model.aliases_withHelper c.united _
  · rfl

theorem enums_united : c.united.enums = c.represented.enums :=
  c.unites.enums_eq

theorem enums_revived : c.revived.enums = c.represented.enums := by
  rw [← c.enums_united]
  unfold revived Model.revive
  split
  · exact Model.enums_withHelper c.united _
  · rfl

theorem precedes_revived : Model.Precedes c.united c.revived := by
  refine ⟨?_, c.aliases_revived ▸ List.Subset.refl _, fun helper hhelper => ?_⟩
  · rw [c.frames_revived, c.frames_united]
    exact List.Subset.refl _
  · unfold revived Model.revive
    split
    · exact Model.mem_helpers_withHelper.mpr (Or.inr hhelper)
    · exact hhelper

/-- Without endpoints nothing is added, and with endpoints their services are. -/
theorem served_cases : builder.graph.rest = none ∧ c.served = c.revived ∨
    ∃ application, builder.graph.rest = some application ∧
      Model.Served c.table application builder.settings builder.mapper c.revived c.served := by
  have hserves := c.serves
  cases hrest : builder.graph.rest with
  | none =>
    rw [hrest] at hserves
    exact .inl ⟨rfl, hserves⟩
  | some application =>
    rw [hrest] at hserves
    exact .inr ⟨application, rfl, hserves⟩

theorem precedes_served : Model.Precedes c.revived c.served := by
  rcases c.served_cases with ⟨-, heq⟩ | ⟨_, -, hserves⟩
  · rw [heq]
    exact .of_frames rfl (List.Subset.refl _) rfl
  · exact hserves.precedes

theorem precedes_final : Model.Precedes c.served c.final :=
  .of_frames (Model.frames_withOptionalForm _)
    (Model.aliases_withOptionalForm _ ▸ List.Subset.refl _) (Model.helpers_withOptionalForm _)

theorem inlinedEnums_served : c.served.inlinedEnums = c.revived.inlinedEnums := by
  rcases c.served_cases with ⟨-, heq⟩ | ⟨_, -, hserves⟩
  · rw [heq]
  · exact hserves.inlinedEnums_eq

theorem precedes_represented : Model.Precedes c.dated c.represented :=
  .of_frames (Model.frames_representEnums _) (Model.aliases_subset_representEnums c.fresh_dated _)
    (Model.helpers_representEnums _)

theorem copyFunctions_mem (h : builder.settings.deserializationFunctions = true) :
    .copyFunctions ∈ c.revived.helpers := by
  rw [revived, Model.revive, if_pos h]
  exact Model.mem_helpers_withHelper.mpr (Or.inl rfl)

theorem united_precedes_final : Model.Precedes c.united c.final :=
  (c.precedes_revived.trans c.precedes_served).trans c.precedes_final

theorem dated_precedes_final : Model.Precedes c.dated c.final :=
  (c.precedes_represented.trans c.unites.precedes).trans c.united_precedes_final

theorem inlinedEnums_final : c.final.inlinedEnums = c.represented.inlinedEnums := by
  rw [final, Model.inlinedEnums_withOptionalForm, c.inlinedEnums_served, c.inlinedEnums_revived]

/-- A declaration with each property in its place is made of a built one. -/
theorem exists_builds (h : d ∈ c.reconciled.data) :
    ∃ source ∈ builder.graph.classes, ∃ b ∈ c.built.data,
      builder.Builds c.table.symbolOf source b ∧ c.built.Reconciles b d := by
  obtain ⟨b, hb, hreconciles⟩ := Model.exists_reconciles h
  obtain ⟨source, hsource, hbuilds⟩ := exists_mem_of_forall₂ c.builds.data hb
  exact ⟨source, hsource, b, hb, hbuilds, hreconciles⟩

/-- The declarations of classes are made of them, up to what later steps change. -/
theorem exists_classFrame (h : d ∈ c.united.data) :
    ∃ source ∈ builder.graph.classes, d.frame = builder.classFrame c.table.symbolOf source := by
  have hframe : d.frame ∈ c.built.frames := c.frames_united ▸ List.mem_map_of_mem h
  rw [c.builds.frames] at hframe
  obtain ⟨source, hsource, heq⟩ := List.mem_map.mp hframe
  exact ⟨source, hsource, heq.symm⟩

theorem category_of_mem_united (h : d ∈ c.united.data) : d.category = .data := by
  obtain ⟨source, -, hframe⟩ := c.exists_classFrame h
  rw [← d.frame_category, hframe]
  rfl

/-! ## What is declared at the end -/

theorem enums_final : c.final.enums = c.represented.enums := by
  have hserved : c.served.enums = c.revived.enums := by
    rcases c.served_cases with ⟨-, heq⟩ | ⟨_, -, hserves⟩
    · rw [heq]
    · exact hserves.enums_eq
  rw [final, Model.enums_withOptionalForm, hserved, c.enums_revived]

/-- A declaration is made of a class or is added for services. -/
theorem classFrame_or_added (h : d ∈ c.final.data) :
    (∃ source ∈ builder.graph.classes, d.frame = builder.classFrame c.table.symbolOf source) ∨
      Model.AddedKind c.table c.final d := by
  have hframes : c.final.frames = c.served.frames := Model.frames_withOptionalForm _
  obtain ⟨d', hd', hframe⟩ := Model.exists_mem_of_frames hframes h
  have hserved : d'.frame ∈ c.revived.frames ∨ Model.AddedKind c.table c.served d' := by
    rcases c.served_cases with ⟨-, heq⟩ | ⟨_, -, hserves⟩
    · rw [heq] at hd'
      exact .inl (List.mem_map_of_mem hd')
    · exact hserves.frame_mem_or_added hd'
  refine hserved.imp (fun hmem => ?_) fun hadded => hadded.congr_frames hframes hframe.symm
  rw [c.frames_revived, c.builds.frames] at hmem
  obtain ⟨source, hsource, heq⟩ := List.mem_map.mp hmem
  exact ⟨source, hsource, hframe ▸ heq.symm⟩

/-- A supertype is an image of a supertype of the class, or a declaration applied to the type
parameters of the declaration itself. -/
theorem supertype_cases (h : d ∈ c.final.data) {t : TypeExpr} (ht : t ∈ d.supertypes) :
    (∃ source ∈ builder.graph.classes, d.typeParameters = source.typeParameters ∧
      ∃ type ∈ source.parent.toList ++ source.interfaces,
        builder.mapper.image c.table.symbolOf type = .ok t) ∨
      ∃ e ∈ c.final.data, t = .reference e.symbol (d.typeParameters.map .var) := by
  rcases c.classFrame_or_added h with ⟨source, hsource, hframe⟩ | hadded
  · rw [← d.frame_supertypes, hframe] at ht
    exact .inl ⟨source, hsource, congrArg (·.typeParameters) hframe,
      Builder.exists_image_of_mem_supertypes ht⟩
  · exact .inr (hadded.supertypes t ht)

/-- Every class is declared. -/
theorem exists_final_of_class {source : SourceClass} (h : source ∈ builder.graph.classes) :
    ∃ d ∈ c.final.data, d.frame = builder.classFrame c.table.symbolOf source := by
  have hframe : builder.classFrame c.table.symbolOf source ∈ c.united.frames := by
    rw [c.frames_united, c.builds.frames]
    exact List.mem_map_of_mem h
  obtain ⟨d, hd, heq⟩ := List.mem_map.mp hframe
  obtain ⟨d', hd', hframe'⟩ := c.united_precedes_final.exists_frame hd
  exact ⟨d', hd', hframe'.trans heq⟩

/-- What an alias of the final model stands for, and what it is named after. -/
inductive AliasKind (c : Compilation builder) (a : AliasDeclaration) : Prop where
  | date {name : String} (hsymbol : c.table.find? (.synthetic name) = some a.symbol)
      (hparameters : a.typeParameters = [])
      (h : builder.settings.dateMapping.alias? = some (name, a.definition))
  | literals {e : SourceEnum} {texts : List String}
      (hmapping : builder.settings.enumMapping = .literalUnion) (he : e ∈ builder.graph.enums)
      (hsymbol : a.symbol = c.table.symbolOf e.name) (hparameters : a.typeParameters = [])
      (h : a.definition = .literalUnion texts)
  | union {source : SourceClass} {members : List Symbol}
      (hsymbol : c.table.find? (.entity source.name "Union") = some a.symbol)
      (hparameters : a.typeParameters = []) (hmembers : members ⊆ c.united.data.map (·.symbol))
      (h : a.definition = .union (members.map .bare))
  | response (hsymbol : c.table.find? (.synthetic "RestResponse") = some a.symbol)
      (hparameters : a.typeParameters = ["R"]) (h : Service.IsResponse c.table a.definition)

/-- The definition of an alias mentions the members of a union, or `Promise`, and the type
parameters of the alias. -/
theorem AliasKind.within {c : Compilation builder} (h : c.AliasKind a) {voc : Vocabulary}
    (hdata : ∀ d ∈ c.united.data, voc.symbol d.symbol 0)
    (hpromise : ∀ s, c.table.find? (.synthetic "Promise") = some s → voc.symbol s 1)
    (hvar : ∀ v ∈ a.typeParameters, voc.var v) (hprimitive : ∀ k, k ≠ .temporal → voc.primitive k) :
    a.definition.Within voc := by
  cases h with
  | date _ _ halias =>
    rcases DateMapping.definition_of_alias? halias with heq | heq
    · rw [heq]
      exact TypeExpr.within_primitive.mpr (hprimitive _ nofun)
    · rw [heq]
      exact TypeExpr.within_primitive.mpr (hprimitive _ nofun)
  | literals _ _ _ _ heq =>
    rw [heq]
    exact .literalUnion _
  | union _ _ hmembers heq =>
    rw [heq, TypeExpr.within_union]
    intro t ht
    obtain ⟨s, hs, rfl⟩ := List.mem_map.mp ht
    obtain ⟨d, hd, rfl⟩ := List.mem_map.mp (hmembers hs)
    exact TypeExpr.within_reference.mpr ⟨hdata d hd, by simp⟩
  | response _ hparameters hresponse =>
    rcases hresponse with ⟨text, heq⟩ | ⟨promise, hfound, heq⟩
    · rw [heq]
      exact TypeExpr.within_verbatim
    · rw [heq, TypeExpr.within_reference]
      refine ⟨hpromise promise hfound, fun t ht => ?_⟩
      rw [List.mem_singleton.mp ht, TypeExpr.within_var]
      exact hvar _ (hparameters ▸ List.mem_singleton_self _)

/-- The union of a base is named after its class. -/
theorem find?_union {base : DataDeclaration} (hbase : base ∈ c.represented.data)
    {union : Symbol × AliasDeclaration}
    (h : Model.IsUnionOf c.early c.table c.represented base union) :
    ∃ source ∈ builder.graph.classes, base.symbol = c.table.symbolOf source.name ∧
      c.table.find? (.entity source.name "Union") = some union.2.symbol := by
  have hframe : base.frame ∈ c.built.frames := c.frames_represented ▸ List.mem_map_of_mem hbase
  rw [c.builds.frames] at hframe
  obtain ⟨source, hsource, heq⟩ := List.mem_map.mp hframe
  have hsymbol : base.symbol = c.table.symbolOf source.name := congrArg (·.symbol) heq.symm
  have hissued := c.issued source.name (List.mem_append_left _ (List.mem_map_of_mem hsource))
  rw [← hsymbol] at hissued
  exact ⟨source, hsource, hsymbol, h.symbol _ (SymbolTable.origin?_of_find? hissued)⟩

theorem aliasKind_of_mem_represented (h : a ∈ c.represented.aliases) : c.AliasKind a := by
  rcases Model.mem_aliases_representEnums c.fresh_dated h with ha | ⟨hmapping, e, he, -, rfl⟩
  · obtain ⟨name, definition, halias, hsymbol, heq⟩ := c.exists_of_mem_aliases_dated ha
    rw [heq]
    exact .date hsymbol rfl halias
  · rw [c.enums_dated] at he
    obtain ⟨source, hsource, rfl⟩ := List.mem_map.mp he
    exact .literals hmapping hsource rfl rfl rfl

theorem aliasKind_of_mem_united (h : a ∈ c.united.aliases) : c.AliasKind a := by
  have hunites := c.unites
  generalize hunited : c.united = united at hunites h
  cases hunites with
  | kept _ => exact c.aliasKind_of_mem_represented h
  | declared _ hunions =>
    rcases List.mem_append.mp h with h | h
    · exact c.aliasKind_of_mem_represented h
    · obtain ⟨union, hunion, rfl⟩ := List.mem_map.mp h
      obtain ⟨base, hbase, hunion⟩ := exists_mem_of_forall₂ hunions hunion
      obtain ⟨source, -, -, hsymbol⟩ := c.find?_union (List.mem_of_mem_filter hbase) hunion
      obtain ⟨members, hmembers, heq⟩ := c.represented.exists_unionDefinition_eq base
      refine .union hsymbol hunion.typeParameters ?_ (hunion.definition.trans heq)
      rwa [Model.symbols_eq_of_frames c.unites.frames_eq]

/-- Every alias of the final model stands for dates, the values of an enum, a union or responses. -/
theorem aliasKind_of_mem_final (h : a ∈ c.final.aliases) : c.AliasKind a := by
  rw [final, Model.aliases_withOptionalForm] at h
  have hrevived : a ∈ c.revived.aliases → c.AliasKind a :=
    fun ha => c.aliasKind_of_mem_united (c.aliases_revived ▸ ha)
  rcases c.served_cases with ⟨-, heq⟩ | ⟨_, -, hserves⟩
  · rw [heq] at h
    exact hrevived h
  · rcases hserves.mem_aliases h with
      ha | ⟨hsymbol, hparameters, ha⟩ | ⟨name, definition, halias, hsymbol, heq⟩
    · exact hrevived ha
    · exact .response hsymbol hparameters ha
    · rw [heq]
      exact .date hsymbol rfl halias

/-! ## What occurs in the final model -/

/-- A property has a type of its class, or of a class above an interface of it. -/
theorem exists_source_of_mem_properties {d : DataDeclaration} (hd : d ∈ c.reconciled.data)
    {p : Property} (hp : p ∈ d.properties) :
    ∃ a ∈ c.built.data,
      (a.frame = d.frame ∨ d.isClass = true ∧ Reaches c.built.data d.interfaces a) ∧
      ∃ source ∈ builder.graph.classes, a.frame = builder.classFrame c.table.symbolOf source ∧
        (p.type = builder.discriminantType source ∨
          builder.PropertyTypeOf c.table.symbolOf source p.type) := by
  obtain ⟨source, hsource, b, hb, hbuilds, hreconciles⟩ := c.exists_builds hd
  obtain ⟨q, htype, hq | ⟨hclass, a, hreaches, hq⟩⟩ := hreconciles.properties p hp
  · exact ⟨b, hb, .inl hreconciles.frame.symm, source, hsource, hbuilds.frame,
      htype ▸ hbuilds.properties q hq⟩
  · obtain ⟨source', hsource', hbuilds'⟩ := exists_mem_of_forall₂ c.builds.data hreaches.mem
    rw [← b.frame_isClass, ← hreconciles.frame] at hclass
    rw [← b.frame_interfaces, ← hreconciles.frame] at hreaches
    exact ⟨a, hreaches.mem, .inr ⟨hclass, hreaches⟩, source', hsource', hbuilds'.frame,
      htype ▸ hbuilds'.properties q hq⟩

/-- Where variables do not matter, the properties of classes mention declared names. -/
theorem propertiesWithin_reconciled {raw : DataDeclaration → Vocabulary}
    (hmapped : ∀ d, builder.mapper.Covered c.table.symbolOf (raw d)) (hvar : ∀ d v, (raw d).var v) :
    c.reconciled.PropertiesWithin raw := by
  intro d hd p hp
  obtain ⟨a, -, -, source, -, -, htype | ⟨owner, q, -, -, htype⟩⟩ :=
    c.exists_source_of_mem_properties hd hp
  · rw [htype]
    exact Builder.within_discriminantType ((hmapped _).primitive _) source
  · rw [htype]
    exact Builder.within_propertyType (hmapped _) fun v _ => hvar _ v

theorem membersWithin_reconciled (scope : DataDeclaration → Vocabulary) :
    c.reconciled.MembersWithin scope := by
  intro d hd
  obtain ⟨_, -, b, -, hbuilds, hreconciles⟩ := c.exists_builds hd
  exact .of_empty (hreconciles.methods.trans hbuilds.methods) (hreconciles.ctor.trans hbuilds.ctor)

theorem codeWithin_reconciled (voc : CodeVocabulary) : c.reconciled.CodeWithin voc := by
  intro d hd
  obtain ⟨_, -, b, -, hbuilds, hreconciles⟩ := c.exists_builds hd
  refine DataDeclaration.codeWithin_iff.mpr ⟨?_, ?_⟩
  · rw [hreconciles.methods, hbuilds.methods]
    exact nofun
  · rw [hreconciles.ctor, hbuilds.ctor]
    exact nofun

section Within

variable {raw scope : DataDeclaration → Vocabulary}
  (hscoping :
    Model.Scoping c.table builder.settings builder.mapper builder.graph.rest c.final raw scope)

include hscoping

theorem rewritten_represented : Model.Rewritten raw scope c.reconciled c.represented := by
  have hdates : Model.Rewritten raw (fun d => (raw d).dated builder.settings.dateMapping)
      c.reconciled c.dated := c.dates.rewritten (fun _ => rfl) fun d a ha =>
    (hscoping.le d).symbol _ _ (hscoping.aliased d a (c.dated_precedes_final.aliases ha) 0)
  refine hdates.trans
    (Model.rewritten_representEnums c.fresh_dated c.inlinedEnums_dated fun d => ?_)
  have hinlines := hscoping.inlines d
  rw [c.inlinedEnums_final] at hinlines
  exact hinlines

theorem unionsDeclared_represented : c.represented.UnionsDeclared := by
  refine (c.rewritten_represented hscoping).unionsDeclared ?_
    (List.Subset.trans c.dates.aliases_subset c.precedes_represented.aliases)
  intro d hd s hs
  obtain ⟨_, -, b, -, hbuilds, hreconciles⟩ := c.exists_builds hd
  rw [hreconciles.unionAlias, hbuilds.unionAlias] at hs
  exact nomatch hs

theorem unionsDeclared_revived : c.revived.UnionsDeclared := by
  have hunited := c.unites.unionsDeclared (c.unionsDeclared_represented hscoping)
  unfold revived Model.revive
  split
  · exact hunited.withRevival
  · exact hunited

theorem aliased_united (d : DataDeclaration) :
    ∀ a ∈ c.united.aliases, ∀ n, (scope d).symbol a.symbol n :=
  fun a ha => hscoping.aliased d a (c.united_precedes_final.aliases ha)

theorem scoping_served :
    Model.Scoping c.table builder.settings builder.mapper builder.graph.rest c.served raw scope :=
  hscoping.of_precedes c.precedes_final (Model.inlinedEnums_withOptionalForm _).symm

/-- What holds of revived classes and is kept where services are added holds with services. -/
theorem served_of_revived {P : Model → Prop} (hrevived : P c.revived)
    (hkept : ∀ application,
      Model.Scoping c.table builder.settings builder.mapper (some application) c.served raw scope →
      Model.Served c.table application builder.settings builder.mapper c.revived c.served →
      P c.served) : P c.served := by
  rcases c.served_cases with ⟨-, heq⟩ | ⟨application, hrest, hserves⟩
  · exact heq ▸ hrevived
  · exact hkept application (hrest ▸ c.scoping_served hscoping) hserves

theorem propertiesWithin_revived (h : c.reconciled.PropertiesWithin raw) :
    c.revived.PropertiesWithin scope := by
  have hunited := c.unites.propertiesWithin (c.unionsDeclared_represented hscoping)
    (c.aliased_united hscoping) ((c.rewritten_represented hscoping).properties h)
  unfold revived Model.revive
  split
  · exact hunited.withRevival
  · exact hunited

theorem membersWithin_revived : c.revived.MembersWithin scope := by
  have hunited := c.unites.membersWithin (c.unionsDeclared_represented hscoping)
    (c.aliased_united hscoping)
    ((c.rewritten_represented hscoping).members (c.membersWithin_reconciled raw))
  unfold revived Model.revive
  split
  · refine hunited.withRevival (fun d hd n => ?_) fun d hd s hs => ?_
    · obtain ⟨d', hd', hframe⟩ := c.united_precedes_final.exists_frame hd
      have hcategory : d'.category = .data := by
        rw [← d'.frame_category, hframe, d.frame_category]
        exact c.category_of_mem_united hd
      rw [← d.frame_symbol, ← hframe]
      exact hscoping.data _ d' hd' (by rw [hcategory]; exact nofun) n
    · have hdeclared := c.unites.unionsDeclared (c.unionsDeclared_represented hscoping) d hd s hs
      obtain ⟨a, ha, rfl⟩ := List.mem_map.mp hdeclared
      exact c.aliased_united hscoping _ a ha 0
  · exact hunited

theorem propertiesWithin_served (h : c.reconciled.PropertiesWithin raw) :
    c.served.PropertiesWithin scope := by
  have hrevived := c.propertiesWithin_revived hscoping h
  exact c.served_of_revived hscoping hrevived fun _ hserved hserves =>
    hserves.propertiesWithin hserved c.inlinesLiterals_revived (c.unionsDeclared_revived hscoping)
      hrevived

theorem membersWithin_served : c.served.MembersWithin scope := by
  have hrevived := c.membersWithin_revived hscoping
  exact c.served_of_revived hscoping hrevived fun _ hserved hserves =>
    hserves.membersWithin hserved c.inlinesLiterals_revived (c.unionsDeclared_revived hscoping)
      hrevived

/-- The aliases of unions are declared at the end. -/
theorem unionsDeclared_final : c.final.UnionsDeclared := by
  have hrevived := c.unionsDeclared_revived hscoping
  have hunions : c.served.UnionsDeclared :=
    c.served_of_revived hscoping hrevived fun _ hserved hserves =>
      hserves.unionsDeclared hserved c.inlinesLiterals_revived hrevived
  refine (Model.Rewritten.withOptionalForm _ hscoping.primitive).unionsDeclared hunions ?_
  rw [Model.aliases_withOptionalForm]
  exact List.Subset.refl _

/-- The properties of the final model mention what those of the built classes do, represented. -/
theorem propertiesWithin (h : c.reconciled.PropertiesWithin raw) : c.final.PropertiesWithin scope :=
  (Model.Rewritten.withOptionalForm _ hscoping.primitive).properties
    (c.propertiesWithin_served hscoping h)

/-- The methods and constructors of the final model mention what may occur. -/
theorem membersWithin : c.final.MembersWithin scope :=
  (Model.Rewritten.withOptionalForm _ hscoping.primitive).members (c.membersWithin_served hscoping)

end Within

section Types

variable {raw voc : Vocabulary}
  (hscoping : Model.Scoping c.table builder.settings builder.mapper builder.graph.rest c.final
    (fun _ => raw) fun _ => voc)
  (hvar : ∀ v, voc.var v)

include hscoping hvar

/-- Where variables do not matter, all types of members mention what may occur. -/
theorem types_within {d : DataDeclaration} (h : d ∈ c.final.data) :
    ∀ t ∈ d.types, t.Within voc := by
  have hproperties := c.propertiesWithin hscoping
    (c.propertiesWithin_reconciled hscoping.mapped fun d v => (hscoping.le d).var v (hvar v))
  exact DataDeclaration.forall_types hvar (hproperties d h) (c.membersWithin hscoping d h)

theorem definition_within
    (hpromise : ∀ s, c.table.find? (.synthetic "Promise") = some s → voc.symbol s 1)
    {a : AliasDeclaration} (h : a ∈ c.final.aliases) : a.definition.Within voc := by
  refine (c.aliasKind_of_mem_final h).within (fun d hd => ?_) hpromise (fun v _ => hvar v)
    (hscoping.primitive default)
  obtain ⟨d', hd', hframe⟩ := c.united_precedes_final.exists_frame hd
  have hcategory : d'.category = .data :=
    (congrArg (·.category) hframe).trans (c.category_of_mem_united hd)
  rw [← d.frame_symbol, ← hframe]
  exact hscoping.data default d' hd' (by rw [hcategory]; exact nofun) 0

end Types

section Code

variable {voc : CodeVocabulary}
  (hscoping : Model.Scoping c.table builder.settings builder.mapper builder.graph.rest c.final
    (fun _ => voc.types) fun _ => voc.types)
  (hcode : Model.CodeScoping c.final voc)
  (hproperties : c.reconciled.PropertiesWithin fun _ => voc.types)

include hscoping hcode hproperties

theorem codeWithin_revived : c.revived.CodeWithin voc := by
  have hunited := c.unites.codeWithin (c.unionsDeclared_represented hscoping)
    (c.aliased_united hscoping)
    ((c.rewritten_represented hscoping).code (c.codeWithin_reconciled voc))
  have hproperties' := c.unites.propertiesWithin (c.unionsDeclared_represented hscoping)
    (c.aliased_united hscoping) ((c.rewritten_represented hscoping).properties hproperties)
  cases hmode : builder.settings.deserializationFunctions with
  | false =>
    rw [revived, Model.revive, if_neg (by simp [hmode])]
    exact hunited
  | true =>
    have hcode' := hcode.of_precedes c.united_precedes_final
    have hlisted := (c.precedes_served.trans c.precedes_final).helpers (c.copyFunctions_mem hmode)
    have hrevives : c.united.Revives voc :=
      ⟨hcode'.data, hcode'.var, hcode.helper _ hlisted, hcode'.parameter⟩
    rw [revived, Model.revive, if_pos hmode]
    exact hunited.withRevival hrevives hproperties'

/-- The code of the final model mentions what may occur, and calls functions of its helpers. -/
theorem codeWithin : c.final.CodeWithin voc := by
  refine (Model.Rewritten.withOptionalForm _ hscoping.primitive).code ?_
  have hrevived := c.codeWithin_revived hscoping hcode hproperties
  exact c.served_of_revived hscoping hrevived fun _ hserved hserves =>
    hserves.codeWithin c.inlinesLiterals_revived (c.unionsDeclared_revived hscoping) hserved
      (hcode.of_precedes c.precedes_final) c.copyFunctions_mem (c.membersWithin_revived hscoping)
      hrevived

end Code

section Declared

variable {voc : CodeVocabulary} (hmapped : builder.mapper.Covered c.table.symbolOf voc.types)
  (haliased : ∀ a ∈ c.final.aliases, ∀ n, voc.types.symbol a.symbol n)
  (hcode : Model.CodeScoping c.final voc)

include hmapped haliased hcode

/-- A vocabulary with all variables and all declarations is one for every declaration. -/
theorem scoping_declared :
    Model.Scoping c.table builder.settings builder.mapper builder.graph.rest c.final
      (fun _ => voc.types) fun _ => voc.types where
  le _ := .refl _
  mapped _ := hmapped
  inlines _ := (Vocabulary.dated_le _ _).inlines _
  aliased _ := haliased
  data _ e he _ := hcode.data e he
  primitive _ k _ := hmapped.primitive k
  parameter _ v _ := hcode.var v
  binds _ _ _ _ _ _ _ v _ := hcode.var v

omit haliased in
/-- The supertypes of a declaration refer to images and to declarations. -/
theorem supertypes_within {d : DataDeclaration} (h : d ∈ c.final.data) :
    ∀ t ∈ d.supertypes, t.Within voc.types := by
  intro t ht
  rcases c.supertype_cases h ht with ⟨_, -, -, type, -, himage⟩ | ⟨e, he, rfl⟩
  · exact Mapper.within_image hmapped type (fun v _ => hcode.var v) himage
  · refine TypeExpr.within_reference.mpr ⟨hcode.data e he _, fun a ha => ?_⟩
    obtain ⟨v, -, rfl⟩ := List.mem_map.mp ha
    exact TypeExpr.within_var.mpr (hcode.var v)

end Declared

end Compilation

end Typings
