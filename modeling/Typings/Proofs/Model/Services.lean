import Typings.Proofs.Service.Declarations

/-!
# Models with services

Services are added to a model whose dates, enums and unions are represented already. Only the new
declarations are represented then, and clients get copy functions.

## Main definitions

* `Model.Scoping`: what may occur in a model before and after its dates and enums are represented.
* `Model.CodeScoping`: what the code of a model may mention.
* `Model.Served`: a model is another one with services.

## Main results

* `Model.yields_withServices`: services are added to a model.
* `Model.Served.propertiesWithin`, `Model.Served.membersWithin`, `Model.Served.codeWithin`: what
  occurs in a model with services.
-/

namespace Typings

open Work (yields_report yields_syntheticSymbol)

namespace Model

/-- What may occur in the declarations of a model and of the models that lead to it: `raw` holds
before the representations of dates and enums are chosen, and `scope` holds afterwards. -/
structure Scoping (table : SymbolTable) (settings : Settings) (mapper : Mapper)
    (rest : Option Application) (final : Model) (raw scope : DataDeclaration → Vocabulary) :
    Prop where
  le : ∀ d, (scope d).Le (raw d)
  mapped : ∀ d, mapper.Covered table.symbolOf (raw d)
  inlines : ∀ d,
    Vocabulary.Inlines final.inlinedEnums ((raw d).dated settings.dateMapping) (scope d)
  aliased : ∀ d, ∀ a ∈ final.aliases, ∀ n, (scope d).symbol a.symbol n
  data : ∀ d, ∀ e ∈ final.data, e.category ≠ .service → ∀ n, (scope d).symbol e.symbol n
  primitive : ∀ d k, k ≠ .temporal → (scope d).primitive k
  parameter : ∀ d, ∀ v ∈ d.typeParameters, (raw d).var v
  binds : ∀ d, ∀ application ∈ rest, ∀ endpoint ∈ application.methods,
    (raw d).Binds endpoint.sourceTypes

/-- What the code of a model and of the models that lead to it may mention. -/
structure CodeScoping (final : Model) (voc : CodeVocabulary) : Prop where
  data : ∀ d ∈ final.data, ∀ n, voc.types.symbol d.symbol n
  var : ∀ v, voc.types.var v
  helper : ∀ helper ∈ final.helpers, ∀ name ∈ helper.functions, voc.callable name
  parameter : ∀ v, voc.callable (constructorName v)

/-- Whether all that a model declares is declared by a later one. -/
structure Precedes (model later : Model) : Prop where
  frames : model.frames ⊆ later.frames
  aliases : model.aliases ⊆ later.aliases
  helpers : model.helpers ⊆ later.helpers

namespace Precedes

variable {model later last : Model}

theorem of_frames (hframes : later.frames = model.frames) (haliases : model.aliases ⊆ later.aliases)
    (hhelpers : later.helpers = model.helpers) : Precedes model later where
  frames := hframes ▸ List.Subset.refl _
  aliases := haliases
  helpers := hhelpers ▸ List.Subset.refl _

theorem trans (h : Precedes model later) (h' : Precedes later last) : Precedes model last where
  frames := List.Subset.trans h.frames h'.frames
  aliases := List.Subset.trans h.aliases h'.aliases
  helpers := List.Subset.trans h.helpers h'.helpers

/-- A declaration has its frame in the later model. -/
theorem exists_frame (h : Precedes model later) {d : DataDeclaration} (hd : d ∈ model.data) :
    ∃ d' ∈ later.data, d'.frame = d.frame :=
  List.mem_map.mp (h.frames (List.mem_map_of_mem hd))

end Precedes

theorem Scoping.of_precedes {table : SymbolTable} {settings : Settings} {mapper : Mapper}
    {rest : Option Application} {model final : Model} {raw scope : DataDeclaration → Vocabulary}
    (hscoping : Scoping table settings mapper rest final raw scope) (h : Precedes model final)
    (hinlined : model.inlinedEnums = final.inlinedEnums) :
    Scoping table settings mapper rest model raw scope :=
  { hscoping with
    inlines := hinlined ▸ hscoping.inlines
    aliased := fun d a ha => hscoping.aliased d a (h.aliases ha)
    data := fun d e he hcategory n => by
      obtain ⟨e', he', hframe⟩ := h.exists_frame he
      rw [← e.frame_symbol, ← hframe]
      rw [← e.frame_category, ← hframe] at hcategory
      exact hscoping.data d e' he' hcategory n }

theorem CodeScoping.of_precedes {model final : Model} {voc : CodeVocabulary}
    (hscoping : CodeScoping final voc) (h : Precedes model final) : CodeScoping model voc :=
  { hscoping with
    data := fun d hd n => by
      obtain ⟨d', hd', hframe⟩ := h.exists_frame hd
      rw [← d.frame_symbol, ← hframe]
      exact hscoping.data d' hd' n
    helper := fun helper hhelper => hscoping.helper helper (h.helpers hhelper) }

theorem CodeScoping.revives {model : Model} {voc : CodeVocabulary} (h : CodeScoping model voc)
    (hcopies : .copyFunctions ∈ model.helpers) : model.Revives voc where
  symbol := h.data
  var := h.var
  helper := h.helper _ hcopies
  parameter := h.parameter

/-! ## Added services -/

/-- Whether a declaration is made for services, given the symbols of query beans. -/
def isNew (beans : List Symbol) (d : DataDeclaration) : Bool :=
  d.category != .data || beans.contains d.symbol

/-- What may occur where only the declarations of services are not represented yet. -/
def newScope (beans : List Symbol) (raw scope : DataDeclaration → Vocabulary) :
    DataDeclaration → Vocabulary :=
  fun d => if isNew beans d then raw d else scope d

/-- Whether a model is another one whose services are represented. -/
def ServicesRepresented (table : SymbolTable) (settings : Settings) (beans : List Symbol)
    (model represented : Model) : Prop :=
  ∃ dated, DatesRepresented table settings.dateMapping (isNew beans) model dated ∧
    represented =
      if settings.taggedUnions then (dated.inlineEnums (isNew beans)).useUnions (isNew beans)
      else dated.inlineEnums (isNew beans)

/-- The outcomes of adding services: there is nothing to add, or the model is extended, the new
declarations are represented, and clients copy what they receive. -/
inductive Served (table : SymbolTable) (application : Application) (settings : Settings)
    (mapper : Mapper) (model : Model) : Model → Prop where
  | nothing (h : settings.restCodegen = .neither) :
      Served table application settings mapper model model
  | added {response : Symbol} {declared beans : List DataDeclaration}
      {aliases : List AliasDeclaration} {extended represented served : Model}
      (hmode : settings.restCodegen ≠ .neither)
      (hresponse : table.find? (.synthetic "RestResponse") = some response)
      (hextends : Service.Extends { application, settings, mapper, response } table model extended
        declared beans aliases)
      (hrepresented :
        ServicesRepresented table settings (beans.map (·.symbol)) extended represented)
      (hserved : served = represented ∨
        settings.deserializationFunctions = true ∧ served = represented.withCopyFunctions response)
      (hcopies : settings.deserializationFunctions = true → settings.restCodegen.client = true →
        served = represented.withCopyFunctions response) :
      Served table application settings mapper model served

variable {lo hi : SymbolTable} {settings : Settings} {mapper : Mapper} {application : Application}
  {model : Model}

theorem yields_representServices (beans : List Symbol) :
    Work.Yields lo hi (model.representServices settings beans)
      (ServicesRepresented hi settings beans model) :=
  .bind yields_representDates fun dated => .pure fun hdated => ⟨dated, hdated, rfl⟩

/-- Services are added to a model. -/
theorem yields_withServices :
    Work.Yields lo hi (model.withServices application settings mapper)
      (Served hi application settings mapper model) := by
  unfold withServices
  split
  case isTrue hmode => exact .pure (.nothing hmode)
  case isFalse hmode =>
    refine .bind (yields_syntheticSymbol "RestResponse") fun response =>
      .bind (Service.yields_extend model) fun ⟨extended, beans⟩ =>
        .bind (yields_representServices beans) fun represented => .pure ?_
    rintro hrepresented ⟨declared, beans, aliases, hextends, rfl⟩ hresponse
    refine .added hmode hresponse hextends hrepresented ?_ fun hdata hclient => ?_
    · split
      case isTrue hcopies => exact .inr ⟨(Bool.and_eq_true_iff.mp hcopies).1, rfl⟩
      case isFalse => exact .inl rfl
    · rw [if_pos (by rw [hdata, hclient, Bool.and_self])]

/-! ## Representation -/

section Represented

variable {beans : List Symbol} {represented : Model}

namespace ServicesRepresented

variable (h : ServicesRepresented hi settings beans model represented)

include h

theorem frames : represented.frames = model.frames := by
  obtain ⟨dated, hdated, rfl⟩ := h
  have hinlined : (dated.inlineEnums (isNew beans)).frames = model.frames := by
    rw [inlineEnums, frames_mapDataTypes, hdated.frames]
  split
  · rw [frames_useUnions, hinlined]
  · exact hinlined

theorem aliases_subset : model.aliases ⊆ represented.aliases := by
  obtain ⟨dated, hdated, rfl⟩ := h
  split
  · exact hdated.aliases_subset
  · exact hdated.aliases_subset

theorem helpers_eq : represented.helpers = model.helpers := by
  obtain ⟨dated, hdated, rfl⟩ := h
  split
  · exact hdated.helpers
  · exact hdated.helpers

theorem enums_eq : represented.enums = model.enums := by
  obtain ⟨dated, hdated, rfl⟩ := h
  split
  · exact hdated.enums
  · exact hdated.enums

/-- An alias was there, or is the one for dates. -/
theorem mem_aliases {a : AliasDeclaration} (ha : a ∈ represented.aliases) :
    a ∈ model.aliases ∨ ∃ name definition,
      settings.dateMapping.alias? = some (name, definition) ∧
        hi.find? (.synthetic name) = some a.symbol ∧ a = { symbol := a.symbol, definition } := by
  obtain ⟨dated, hdated, rfl⟩ := h
  split at ha
  · exact hdated.mem_aliases ha
  · exact hdated.mem_aliases ha

theorem inlinedEnums_eq : represented.inlinedEnums = model.inlinedEnums := by
  obtain ⟨dated, hdated, rfl⟩ := h
  split
  · exact hdated.inlinedEnums
  · exact hdated.inlinedEnums

theorem precedes : Precedes model represented :=
  .of_frames h.frames h.aliases_subset h.helpers_eq

/-- What was represented before stays so, and the declarations of services are represented. -/
theorem rewritten {raw scope : DataDeclaration → Vocabulary} (hle : ∀ d, (scope d).Le (raw d))
    (hinlines : ∀ d,
      Vocabulary.Inlines model.inlinedEnums ((raw d).dated settings.dateMapping) (scope d))
    (hliterals : model.InlinesLiterals) (hunions : model.UnionsDeclared)
    (haliased : ∀ d, ∀ a ∈ represented.aliases, ∀ n, (scope d).symbol a.symbol n) :
    Rewritten (newScope beans raw scope) scope model represented := by
  obtain ⟨dated, hdated, rfl⟩ := h
  have hselects : ∀ d, isNew beans d.frame = isNew beans d := fun _ => rfl
  have haliased' : ∀ d, ∀ a ∈ dated.aliases, ∀ n, (scope d).symbol a.symbol n := by
    intro d a ha
    refine haliased d a ?_
    split <;> exact ha
  have hdates : Rewritten (newScope beans raw scope)
      (newScope beans (fun d => (raw d).dated settings.dateMapping) scope) model dated := by
    have h := hdated.rewritten hselects fun d a ha =>
      show (newScope beans raw scope d).symbol a.symbol 0 by
        unfold newScope
        split
        · exact (hle d).symbol _ _ (haliased' d a ha 0)
        · exact haliased' d a ha 0
    refine h.congr_scope fun d => ?_
    unfold newScope
    split <;> rfl
  have hliterals' : dated.InlinesLiterals := by
    rw [InlinesLiterals, hdated.inlinedEnums]
    exact hliterals
  have henums : Rewritten (newScope beans (fun d => (raw d).dated settings.dateMapping) scope) scope
      dated (dated.inlineEnums (isNew beans)) := by
    refine .inlineEnums hselects hliterals' (fun d hd => ?_) fun d hd => ?_
    · rw [newScope, if_pos hd, hdated.inlinedEnums]
      exact hinlines d
    · rw [newScope, if_neg (by simp [hd])]
      exact .refl _
  have hboth := hdates.trans henums
  split
  · have hdeclared := hboth.unionsDeclared hunions hdated.aliases_subset
    exact hboth.trans (.useUnions hselects hdeclared haliased')
  · exact hboth

end ServicesRepresented

end Represented

/-! ## Copy functions -/

section Copies

variable {response : Symbol} {m : Method} {voc : CodeVocabulary}

/-- A copy function changes the code of a method only. -/
theorem addCopyFunction_eq (model : Model) (response : Symbol) (m : Method) :
    model.addCopyFunction response m =
      { m with body := (model.addCopyFunction response m).body } := by
  unfold addCopyFunction
  split
  · split <;> rfl
  · rfl

theorem within_addCopyFunction {scope : Vocabulary} (h : m.Within scope) :
    (model.addCopyFunction response m).Within scope := by
  rw [addCopyFunction_eq]
  exact ⟨h.parameters, h.result⟩

theorem within_insertCopyFunction {copy : Expression} {entries : List (String × Option Expression)}
    (hcopy : copy.Within voc) (hentries : ∀ e ∈ entries.filterMap (·.2), e.Within voc) :
    ∀ e ∈ (insertCopyFunction copy entries).filterMap (·.2), e.Within voc := by
  rw [← List.takeWhile_append_dropWhile (p := (·.1 != "options")) (l := entries),
    List.filterMap_append, List.forall_mem_append] at hentries
  rw [insertCopyFunction, List.filterMap_append, List.forall_mem_append]
  exact ⟨hentries.1, List.forall_mem_cons.mpr ⟨hcopy, hentries.2⟩⟩

theorem within_contentCopy (hvoc : model.Revives voc) {content : TypeExpr}
    (h : content.Within voc.types) : (model.contentCopy content).Within voc := by
  unfold contentCopy
  split
  · exact Expression.within_undefined
  · exact within_copyFunction hvoc h

theorem codeWithin_addCopyFunction (hvoc : model.Revives voc) (hcode : m.CodeWithin voc)
    (hresult : m.result.Within voc.types) : (model.addCopyFunction response m).CodeWithin voc := by
  unfold addCopyFunction
  split
  case h_1 symbol content callee types entries args hres hbody =>
    split
    · rw [hres, TypeExpr.within_reference, List.forall_mem_singleton] at hresult
      rw [Method.CodeWithin, hbody] at hcode
      simp only [Option.getD_some, statementsWithin_cons, statementsWithin_nil, and_true,
        Statement.expressions, Option.toList_some, List.forall_mem_singleton,
        Expression.within_call, List.forall_mem_cons, Expression.within_object] at hcode
      obtain ⟨htypes, hname, hcallee, hentries, hargs⟩ := hcode
      simp only [Method.CodeWithin, Option.getD_some, statementsWithin_cons, statementsWithin_nil,
        and_true, Statement.expressions, Option.toList_some, List.forall_mem_singleton,
        Expression.within_call, List.forall_mem_cons, Expression.within_object]
      have hcopy := within_contentCopy hvoc hresult.2
      exact ⟨htypes, hname, hcallee, within_insertCopyFunction hcopy hentries, hargs⟩
    · exact hcode
  case h_2 => exact hcode

@[simp] theorem frames_withCopyFunctions :
    (model.withCopyFunctions response).frames = model.frames :=
  frames_map fun d => by split <;> rfl

theorem mem_withCopyFunctions {d' : DataDeclaration}
    (h : d' ∈ (model.withCopyFunctions response).data) :
    ∃ d ∈ model.data, d' = d ∨
      d' = { d with methods := d.methods.map (model.addCopyFunction response) } := by
  obtain ⟨d, hd, rfl⟩ := List.mem_map.mp h
  refine ⟨d, hd, ?_⟩
  split
  · exact .inr rfl
  · exact .inl rfl

theorem PropertiesWithin.withCopyFunctions {scope : DataDeclaration → Vocabulary}
    (h : model.PropertiesWithin scope) :
    (model.withCopyFunctions response).PropertiesWithin scope := by
  intro d' hd'
  obtain ⟨d, hd, rfl | rfl⟩ := mem_withCopyFunctions hd'
  · exact h _ hd
  · exact h d hd

theorem MembersWithin.withCopyFunctions {scope : DataDeclaration → Vocabulary}
    (h : model.MembersWithin scope) : (model.withCopyFunctions response).MembersWithin scope := by
  intro d' hd'
  obtain ⟨d, hd, rfl | rfl⟩ := mem_withCopyFunctions hd'
  · exact h _ hd
  · refine ⟨?_, (h d hd).ctor⟩
    rw [List.forall_mem_map]
    exact fun m hm => within_addCopyFunction ((h d hd).methods m hm)

theorem CodeWithin.withCopyFunctions (h : model.CodeWithin voc) (hvoc : model.Revives voc)
    (hmembers : model.MembersWithin fun _ => voc.types) :
    (model.withCopyFunctions response).CodeWithin voc := by
  have hle : ∀ names, (voc.types.binding names).Le voc.types := fun names =>
    ⟨fun _ _ hs => hs, fun v _ => hvoc.var v, fun _ hk => hk⟩
  intro d' hd'
  obtain ⟨d, hd, rfl | rfl⟩ := mem_withCopyFunctions hd'
  · exact h _ hd
  · obtain ⟨hmethods, hctor⟩ := DataDeclaration.codeWithin_iff.mp (h d hd)
    refine DataDeclaration.codeWithin_iff.mpr ⟨?_, hctor⟩
    rw [List.forall_mem_map]
    intro m hm
    have hresult := ((hmembers d hd).methods m hm).result.mono (hle _)
    exact codeWithin_addCopyFunction hvoc (hmethods m hm) hresult

end Copies

/-! ## What occurs in a model with services -/

section NewScope

variable {beans : List Symbol} {raw scope : DataDeclaration → Vocabulary} {d : DataDeclaration}

theorem le_newScope (hle : ∀ d, (scope d).Le (raw d)) (beans : List Symbol) (d : DataDeclaration) :
    (scope d).Le (newScope beans raw scope d) := by
  unfold newScope
  split
  · exact hle d
  · exact .refl _

theorem newScope_of_isNew (h : isNew beans d = true) :
    newScope beans raw scope d.frame = raw d.frame :=
  if_pos h

theorem isNew_of_category (h : d.category ≠ .data) : isNew beans d = true := by
  simp [isNew, h]

theorem isNew_of_mem (h : d.symbol ∈ beans) : isNew beans d = true := by
  simp [isNew, h]

end NewScope

section Extended

variable {service : Service} {extended : Model} {declared beans : List DataDeclaration}
  {aliases : List AliasDeclaration} {raw scope : DataDeclaration → Vocabulary}
  (h : service.Extends hi model extended declared beans aliases)

include h

theorem PropertiesWithin.extend (hle : ∀ d, (scope d).Le (raw d))
    (hmapped : ∀ d, service.mapper.Covered hi.symbolOf (raw d))
    (hbinds : ∀ d, ∀ endpoint ∈ service.application.methods, (raw d).Binds endpoint.sourceTypes)
    (hmodel : model.PropertiesWithin scope) :
    extended.PropertiesWithin (newScope (beans.map (·.symbol)) raw scope) := by
  intro d hd
  rcases h.mem_data.mp hd with hd | hd | hd
  · exact (hmodel d hd).mono (le_newScope hle _ _)
  · obtain ⟨role, -, -, hdeclared⟩ := h.exists_role hd
    intro p hp
    rw [hdeclared.properties_eq] at hp
    exact absurd hp List.not_mem_nil
  · obtain ⟨endpoint, hendpoint, bean, hbean, -, hdeclares⟩ := h.areBeans.each d hd
    have hsymbol : d.symbol ∈ beans.map (·.symbol) := List.mem_map_of_mem hd
    rw [newScope_of_isNew (isNew_of_mem hsymbol)]
    refine hdeclares.propertiesWithin (hmapped _) ((hbinds _ endpoint hendpoint).subset ?_)
    intro source hsource
    refine List.mem_append_left _ (List.mem_append_right _ (List.mem_flatMap.mpr ?_))
    exact ⟨.bean bean, hbean, hsource⟩

theorem MembersWithin.extend (hle : ∀ d, (scope d).Le (raw d))
    (hmapped : ∀ d, service.mapper.Covered hi.symbolOf (raw d))
    (hbinds : ∀ d, ∀ endpoint ∈ service.application.methods, (raw d).Binds endpoint.sourceTypes)
    (haliased : ∀ d, ∀ a ∈ extended.aliases, ∀ n, (scope d).symbol a.symbol n)
    (hdata : ∀ d, ∀ e ∈ extended.data, e.category ≠ .service → ∀ n, (scope d).symbol e.symbol n)
    (hparameter : ∀ d, ∀ v ∈ d.typeParameters, (raw d).var v)
    (hmodel : model.MembersWithin scope) :
    extended.MembersWithin (newScope (beans.map (·.symbol)) raw scope) := by
  have hbean : ∀ b ∈ beans, b.methods = [] ∧ b.ctor = none ∧ b.category ≠ .service := by
    intro b hb
    obtain ⟨_, -, _, -, -, hdeclares⟩ := h.areBeans.each b hb
    rw [hdeclares.shape]
    exact ⟨rfl, rfl, nofun⟩
  intro d hd
  rcases h.mem_data.mp hd with hd | hd | hd
  · exact (hmodel d hd).mono (le_newScope hle _ _)
  · obtain ⟨role, -, -, hdeclared⟩ := h.exists_role hd
    rw [newScope_of_isNew (isNew_of_category hdeclared.category_ne)]
    have hsymbol : ∀ s n, (scope d.frame).symbol s n → (raw d.frame).symbol s n :=
      (hle d.frame).symbol
    refine hdeclared.membersWithin ⟨hmapped _, ?_, fun b hb => ?_, ?_⟩
      (hbinds _) fun s hclient hs n => ?_
    · obtain ⟨a, ha, heq⟩ := List.mem_map.mp h.response_mem
      exact heq ▸ hsymbol _ _ (haliased _ a ha 1)
    · exact hsymbol _ _ (hdata _ b (h.mem_data.mpr (Or.inr (.inr hb))) (hbean b hb).2.2 0)
    · rw [← hdeclared.typeParameters_eq]
      exact hparameter d.frame
    · obtain ⟨e, he, hcategory, hfound⟩ := h.exists_httpClient hclient
      obtain rfl := Option.some.inj (hs.symm.trans hfound)
      exact hsymbol _ _ (hdata _ e (h.mem_data.mpr (Or.inr (.inl he))) hcategory n)
  · exact .of_empty (hbean d hd).1 (hbean d hd).2.1

end Extended

theorem precedes_extend {service : Service} {extended : Model}
    {declared beans : List DataDeclaration} {aliases : List AliasDeclaration}
    (h : service.Extends hi model extended declared beans aliases) : Precedes model extended where
  frames := by
    rw [frames, frames, h.data_eq, List.append_assoc, List.map_append]
    exact List.subset_append_left _ _
  aliases := by
    rw [h.aliases_eq]
    exact List.subset_append_left _ _
  helpers := fun helper hhelper => (h.mem_helpers helper).mpr (Or.inl hhelper)

theorem precedes_withCopyFunctions {response : Symbol} :
    Precedes model (model.withCopyFunctions response) :=
  .of_frames frames_withCopyFunctions (List.Subset.refl _) rfl

section Added

variable {response : Symbol} {extended represented : Model} {declared beans : List DataDeclaration}
  {aliases : List AliasDeclaration} {raw scope : DataDeclaration → Vocabulary}
  (hextends : Service.Extends { application, settings, mapper, response } hi model extended
    declared beans aliases)
  (hrepresented : ServicesRepresented hi settings (beans.map (·.symbol)) extended represented)
  (hscoping : Scoping hi settings mapper (some application) represented raw scope)
  (hliterals : model.InlinesLiterals) (hunions : model.UnionsDeclared)

include hextends hrepresented hscoping hliterals hunions

/-- The declarations of an extended model are represented. -/
theorem rewritten_extend :
    Rewritten (newScope (beans.map (·.symbol)) raw scope) scope extended represented := by
  have hliterals' : extended.InlinesLiterals := by
    rw [InlinesLiterals, hextends.inlinedEnums_eq]
    exact hliterals
  exact hrepresented.rewritten hscoping.le (hrepresented.inlinedEnums_eq ▸
    hscoping.inlines) hliterals' (hextends.unionsDeclared hunions) hscoping.aliased

theorem PropertiesWithin.serve (hmodel : model.PropertiesWithin scope) :
    represented.PropertiesWithin scope :=
  (rewritten_extend hextends hrepresented hscoping hliterals hunions).properties
    (.extend hextends hscoping.le hscoping.mapped
      (fun d => hscoping.binds d application rfl) hmodel)

theorem MembersWithin.serve (hmodel : model.MembersWithin scope) :
    represented.MembersWithin scope := by
  have hscoping' := hscoping.of_precedes hrepresented.precedes hrepresented.inlinedEnums_eq.symm
  refine (rewritten_extend hextends hrepresented hscoping hliterals hunions).members ?_
  exact .extend hextends hscoping'.le hscoping'.mapped (fun d => hscoping'.binds d application rfl)
    hscoping'.aliased hscoping'.data hscoping'.parameter hmodel

theorem CodeWithin.serve {voc : CodeVocabulary} (hcode : CodeScoping represented voc)
    (hmodel : model.CodeWithin voc) : represented.CodeWithin voc :=
  (rewritten_extend hextends hrepresented hscoping hliterals hunions).code
    (hextends.codeWithin hmodel (hcode.of_precedes hrepresented.precedes).helper)

end Added

/-- What the declarations are that are added. -/
inductive AddedKind (table : SymbolTable) (served : Model) (d : DataDeclaration) : Prop where
  /-- A surface or a client, whose supertypes are surfaces applied to its own type parameters. -/
  | service (hcategory : d.category = .service)
      (hsupertypes : ∀ t ∈ d.supertypes,
        ∃ e ∈ served.data, t = .reference e.symbol (d.typeParameters.map .var))
  /-- A declaration that is not named after an entity only. -/
  | generated {origin : Origin} (hsupertypes : d.supertypes = [])
      (horigin : ∀ name, origin ≠ .entity name "") (hsymbol : table.find? origin = some d.symbol)

/-- The supertypes are declarations applied to the type parameters of the declaration itself. -/
theorem AddedKind.supertypes {table : SymbolTable} {served : Model} {d : DataDeclaration}
    (h : AddedKind table served d) :
    ∀ t ∈ d.supertypes, ∃ e ∈ served.data, t = .reference e.symbol (d.typeParameters.map .var) := by
  cases h with
  | service _ hsupertypes => exact hsupertypes
  | generated hsupertypes _ _ => exact fun t ht => absurd (hsupertypes ▸ ht) List.not_mem_nil

theorem AddedKind.congr_frames {table : SymbolTable} {served served' : Model}
    {d d' : DataDeclaration} (h : AddedKind table served d)
    (hframes : served'.frames = served.frames)
    (hframe : d'.frame = d.frame) : AddedKind table served' d' := by
  have hsupertypes : d'.supertypes = d.supertypes := congrArg (·.supertypes) hframe
  have hsymbol : d'.symbol = d.symbol := congrArg (·.symbol) hframe
  have hparameters : d'.typeParameters = d.typeParameters := congrArg (·.typeParameters) hframe
  cases h with
  | service hcategory hdeclared =>
    refine .service ((congrArg (·.category) hframe).trans hcategory) fun t ht => ?_
    obtain ⟨e, he, rfl⟩ := hdeclared t (hsupertypes ▸ ht)
    obtain ⟨e', he', heq⟩ := exists_mem_of_frames hframes.symm he
    refine ⟨e', he', ?_⟩
    rw [hparameters, ← e'.frame_symbol, heq, e.frame_symbol]
  | generated hnone horigin hfound =>
    exact .generated (hsupertypes.trans hnone) horigin (hsymbol ▸ hfound)

theorem frames_of_added {response : Symbol} {extended represented served : Model}
    {beans : List Symbol}
    (hrepresented : ServicesRepresented hi settings beans extended represented)
    (hserved : served = represented ∨
      settings.deserializationFunctions = true ∧ served = represented.withCopyFunctions response) :
    served.frames = extended.frames := by
  rcases hserved with rfl | ⟨-, rfl⟩
  · exact hrepresented.frames
  · rw [frames_withCopyFunctions, hrepresented.frames]

namespace Served

variable {served : Model} {raw scope : DataDeclaration → Vocabulary} {voc : CodeVocabulary}
  (h : Served hi application settings mapper model served)

include h

theorem precedes : Precedes model served := by
  cases h with
  | nothing _ => exact .of_frames rfl (List.Subset.refl _) rfl
  | added _ _ hextends hrepresented hserved =>
    have hmodel := (precedes_extend hextends).trans hrepresented.precedes
    rcases hserved with rfl | ⟨-, rfl⟩
    · exact hmodel
    · exact hmodel.trans precedes_withCopyFunctions

theorem inlinedEnums_eq : served.inlinedEnums = model.inlinedEnums := by
  cases h with
  | nothing _ => rfl
  | added _ _ hextends hrepresented hserved =>
    have hmodel := hrepresented.inlinedEnums_eq.trans hextends.inlinedEnums_eq
    rcases hserved with rfl | ⟨-, rfl⟩
    · exact hmodel
    · exact hmodel

theorem enums_eq : served.enums = model.enums := by
  cases h with
  | nothing _ => rfl
  | added _ _ hextends hrepresented hserved =>
    have hmodel := hrepresented.enums_eq.trans hextends.enums_eq
    rcases hserved with rfl | ⟨-, rfl⟩
    · exact hmodel
    · exact hmodel

/-- A declaration was there or is added. -/
theorem frame_mem_or_added {d : DataDeclaration} (hd : d ∈ served.data) :
    d.frame ∈ model.frames ∨ AddedKind hi served d := by
  have hframe : d.frame ∈ served.frames := List.mem_map_of_mem hd
  cases h with
  | nothing _ => exact .inl hframe
  | @added _ _ _ _ extended represented _ _ _ hextends hrepresented hserved =>
    have hframes : served.frames = extended.frames := frames_of_added hrepresented hserved
    rw [hframes] at hframe
    obtain ⟨e, he, heq⟩ := List.mem_map.mp hframe
    have hsupertypes : d.supertypes = e.supertypes := congrArg (·.supertypes) heq.symm
    have hsymbol : d.symbol = e.symbol := congrArg (·.symbol) heq.symm
    have hcategory : d.category = e.category := congrArg (·.category) heq.symm
    have hparameters : d.typeParameters = e.typeParameters := congrArg (·.typeParameters) heq.symm
    rcases hextends.mem_data.mp he with he | he | he
    · exact .inl (heq ▸ List.mem_map_of_mem he)
    · obtain ⟨role, -, hfound, hdeclared⟩ := hextends.exists_role he
      refine .inr ?_
      by_cases hservice : d.category = .service
      · refine .service hservice fun t ht => ?_
        rw [hsupertypes] at ht
        obtain ⟨group, hgroup, hsurface, surface, hfound, rfl⟩ :=
          hdeclared.exists_of_mem_supertypes ht
        obtain ⟨e', he', hsymbol'⟩ := hextends.exists_surface hsurface hgroup
        obtain rfl := Option.some.inj (hfound.symm.trans hsymbol')
        obtain ⟨e'', he'', heq'⟩ := exists_mem_of_frames hframes.symm
          (hextends.mem_data.mpr (Or.inr (.inl he')))
        refine ⟨e'', he'', ?_⟩
        rw [← e''.frame_symbol, heq', hparameters, hdeclared.typeParameters_eq]
        rfl
      · obtain ⟨rfl, hnone⟩ := hdeclared.of_category_ne (hcategory ▸ hservice)
        exact .generated (hsupertypes.trans hnone) (by simp [Service.Role.origin])
          (hsymbol ▸ hfound)
    · obtain ⟨_, -, bean, -, hfound, hbean⟩ := hextends.areBeans.each e he
      have hnone : e.supertypes = [] := by
        rw [hbean.shape]
        rfl
      exact .inr (.generated (hsupertypes.trans hnone) (by simp) (hsymbol ▸ hfound))

/-- An alias was there, or stands for responses or for dates. -/
theorem mem_aliases {a : AliasDeclaration} (ha : a ∈ served.aliases) :
    a ∈ model.aliases ∨
      (hi.find? (.synthetic "RestResponse") = some a.symbol ∧ a.typeParameters = ["R"] ∧
        Service.IsResponse hi a.definition) ∨
      ∃ name definition, settings.dateMapping.alias? = some (name, definition) ∧
        hi.find? (.synthetic name) = some a.symbol ∧ a = { symbol := a.symbol, definition } := by
  cases h with
  | nothing _ => exact .inl ha
  | @added _ _ _ _ _ represented _ _ hresponse hextends hrepresented hserved =>
    have ha' : a ∈ represented.aliases := by
      rcases hserved with rfl | ⟨-, rfl⟩
      · exact ha
      · exact ha
    rcases hrepresented.mem_aliases ha' with ha | hdate
    · rw [hextends.aliases_eq, List.mem_append] at ha
      refine ha.imp_right fun ha => ?_
      rcases hextends.declaresResponse with ⟨-, rfl⟩ | ⟨-, definition, hdefinition, rfl⟩
      · exact absurd ha List.not_mem_nil
      · rw [List.mem_singleton.mp ha]
        exact .inl ⟨hresponse, rfl, hdefinition⟩
    · exact .inr (.inr hdate)

variable (hscoping : Scoping hi settings mapper (some application) served raw scope)
  (hliterals : model.InlinesLiterals) (hunions : model.UnionsDeclared)

include hscoping hliterals hunions

theorem propertiesWithin (hmodel : model.PropertiesWithin scope) :
    served.PropertiesWithin scope := by
  cases h with
  | nothing _ => exact hmodel
  | added _ _ hextends hrepresented hserved =>
    rcases hserved with rfl | ⟨-, rfl⟩
    · exact hmodel.serve hextends hrepresented hscoping hliterals hunions
    · have hscoping' := hscoping.of_precedes precedes_withCopyFunctions rfl
      exact (hmodel.serve hextends hrepresented hscoping' hliterals hunions).withCopyFunctions

theorem membersWithin (hmodel : model.MembersWithin scope) : served.MembersWithin scope := by
  cases h with
  | nothing _ => exact hmodel
  | added _ _ hextends hrepresented hserved =>
    rcases hserved with rfl | ⟨-, rfl⟩
    · exact hmodel.serve hextends hrepresented hscoping hliterals hunions
    · have hscoping' := hscoping.of_precedes precedes_withCopyFunctions rfl
      exact (hmodel.serve hextends hrepresented hscoping' hliterals hunions).withCopyFunctions

theorem unionsDeclared : served.UnionsDeclared := by
  cases h with
  | nothing _ => exact hunions
  | @added _ _ _ _ _ represented _ _ _ hextends hrepresented hserved =>
    have hkept : Scoping hi settings mapper (some application) represented raw scope →
        represented.UnionsDeclared := fun hscoping =>
      (rewritten_extend hextends hrepresented hscoping hliterals hunions).unionsDeclared
        (hextends.unionsDeclared hunions) hrepresented.aliases_subset
    rcases hserved with rfl | ⟨-, rfl⟩
    · exact hkept hscoping
    · intro d' hd' s hs
      obtain ⟨d, hd, rfl | rfl⟩ := mem_withCopyFunctions hd'
      · exact hkept (hscoping.of_precedes precedes_withCopyFunctions rfl) _ hd s hs
      · exact hkept (hscoping.of_precedes precedes_withCopyFunctions rfl) _ hd s hs

omit hscoping

/-- The code of services calls helpers that the model lists. -/
theorem codeWithin
    (hscoping : Scoping hi settings mapper (some application) served (fun _ => voc.types)
      fun _ => voc.types)
    (hcode : CodeScoping served voc)
    (hcopies : settings.deserializationFunctions = true → .copyFunctions ∈ model.helpers)
    (hmembers : model.MembersWithin fun _ => voc.types) (hmodel : model.CodeWithin voc) :
    served.CodeWithin voc := by
  cases h with
  | nothing _ => exact hmodel
  | @added _ _ _ _ _ represented _ _ _ hextends hrepresented hserved =>
    rcases hserved with rfl | ⟨hcopied, rfl⟩
    · exact hmodel.serve hextends hrepresented hscoping hliterals hunions hcode
    · have hscoping' := hscoping.of_precedes precedes_withCopyFunctions rfl
      have hcode' := hcode.of_precedes precedes_withCopyFunctions
      have hlisted : Helper.copyFunctions ∈ represented.helpers := by
        rw [hrepresented.helpers_eq]
        exact (precedes_extend hextends).helpers (hcopies hcopied)
      exact (hmodel.serve hextends hrepresented hscoping' hliterals hunions
        hcode').withCopyFunctions
        (hcode'.revives hlisted) (hmembers.serve hextends hrepresented hscoping' hliterals hunions)

end Served

end Model

end Typings
