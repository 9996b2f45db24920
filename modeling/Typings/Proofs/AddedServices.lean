import Mathlib.Data.List.Nodup
import Typings.Proofs.ServiceClients

/-!
# What services add to a model

Dates, inlined enums and unions are represented once more for the declarations of services, and
clients get copy functions afterwards. Both go through all declarations of the model, those that
were finished before as well. They are told apart by their category, and query beans, which have the
category of other data, by their symbols. So a finished declaration is left alone if it is data and
its symbol is that of no query bean.

## Main definitions

* `SymbolTable.IsQueryParams`: a symbol was issued for a query bean.
* `Application.Adds`: a declaration is one of those that services need.

## Main results

* `Model.exists_rewriting`: what services change in a model that is extended already.
* `Model.appends_withServices`: services are added behind what was there, and nothing else changes.
-/

namespace Typings

open Work (yields_report yields_warn yields_syntheticSymbol)

/-- Whether a symbol was issued for a query bean. -/
def SymbolTable.IsQueryParams (table : SymbolTable) (s : Symbol) : Prop :=
  ∃ name, table.origin? s = some (.entity name "QueryParams")

/-- Whether a declaration is one of those that the services of an application need: an interface or
a client, what clients send requests with, or the interface of a query bean. -/
inductive Application.Adds (application : Application) (table : SymbolTable) :
    DataDeclaration → Prop where
  | service {d : DataDeclaration} (hcategory : d.category = .service) : Adds application table d
  | httpClient {d : DataDeclaration} (hcategory : d.category = .servicePrerequisite)
      (hsymbol : table.find? (.synthetic "HttpClient") = some d.symbol) : Adds application table d
  | queryBean {d : DataDeclaration} {endpoint : Endpoint} {bean : SourceClass}
      (hendpoint : endpoint ∈ application.methods) (hbean : .bean bean ∈ endpoint.queryParams)
      (hsymbol : table.find? (.entity bean.name "QueryParams") = some d.symbol)
      (hshape : d = { symbol := d.symbol, properties := d.properties, comments := d.comments }) :
      Adds application table d

/-! ## Aliases and helpers -/

namespace Model

variable {lo hi table : SymbolTable} {settings : Settings} {mapper : Mapper}
  {application : Application} {model served : Model}

theorem DatesRepresented.aliases_prefix {mapping : DateMapping} {selects : DataDeclaration → Bool}
    {dated : Model} (h : DatesRepresented table mapping selects model dated) :
    model.aliases <+: dated.aliases := by
  cases h with
  | kept _ => exact List.prefix_refl _
  | replaced _ _ =>
    unfold withDates
    dsimp only
    split
    · exact List.prefix_refl _
    · exact List.prefix_append _ _

variable {beans : List Symbol}

theorem ServicesRepresented.aliases_prefix {represented : Model}
    (h : ServicesRepresented table settings beans model represented) :
    model.aliases <+: represented.aliases := by
  obtain ⟨dated, hdated, rfl⟩ := h
  split
  · exact hdated.aliases_prefix
  · exact hdated.aliases_prefix

theorem Served.aliases_prefix (h : Served table application settings mapper model served) :
    model.aliases <+: served.aliases := by
  cases h with
  | nothing _ => exact List.prefix_refl _
  | added _ _ hextends hrepresented hserved _ =>
    have haliases := (List.prefix_append _ _).trans
      (hextends.aliases_eq ▸ hrepresented.aliases_prefix)
    rcases hserved with rfl | ⟨-, rfl⟩
    · exact haliases
    · exact haliases

theorem helpers_prefix_withHelper {extended : Model} (h : extended.helpers = model.helpers)
    (helper : Helper) : model.helpers <+: (extended.withHelper helper).helpers := by
  rw [← h, withHelper]
  split
  · exact List.prefix_refl _
  · exact List.prefix_append _ _

theorem yields_extend_helpers (service : Service) (model : Model) :
    Work.Yields lo hi (service.extend model) fun result => model.helpers <+: result.1.helpers := by
  refine .bind (Service.yields_responseAlias model) fun aliases =>
    .bind (.forM fun _ => yields_warn _) fun _ => .bind (yields_report _ _ _) fun _ =>
      .bind Service.yields_run_declarations fun ⟨declared, beans⟩ => .pure fun _ _ _ _ => ?_
  dsimp only
  split
  · exact helpers_prefix_withHelper (by rfl) _
  · exact List.prefix_refl _

theorem yields_withServices_helpers :
    Work.Yields lo hi (model.withServices application settings mapper) fun served =>
      model.helpers <+: served.helpers := by
  unfold withServices
  split
  · exact .pure (List.prefix_refl _)
  · refine .bind (yields_syntheticSymbol "RestResponse") fun response =>
      .bind (yields_extend_helpers _ model) fun ⟨extended, beans⟩ =>
        .bind (yields_representServices beans) fun represented =>
          .pure fun hrepresented hextended _ => ?_
    have hhelpers : model.helpers <+: represented.helpers := hrepresented.helpers_eq ▸ hextended
    split
    · exact hhelpers
    · exact hhelpers

/-! ## Data -/

theorem category_of_isNew {d : DataDeclaration} (h : isNew beans d = false) :
    d.category = .data := by
  by_contra hcategory
  rw [isNew_of_category hcategory] at h
  cases h

/-- Copy functions are added to clients, so that data is not concerned. -/
theorem exists_copying (model : Model) (response : Symbol) :
    ∃ copy : DataDeclaration → DataDeclaration,
      (model.withCopyFunctions response).data = model.data.map copy ∧
      (∀ d, (copy d).frame = d.frame) ∧ ∀ d, d.category = .data → copy d = d := by
  refine ⟨_, rfl, fun d => ?_, fun d hd => ?_⟩
  · split
    · rfl
    · rfl
  · rw [hd, if_neg]
    simp

/-- Representing services and adding copy functions rewrites every declaration for itself: what is
not new is kept, and data changes in its types only. -/
theorem exists_rewriting {extended represented : Model} {response : Symbol}
    (hrepresented : ServicesRepresented table settings beans extended represented)
    (hserved : served = represented ∨ settings.deserializationFunctions = true ∧
      served = represented.withCopyFunctions response) :
    ∃ g : DataDeclaration → DataDeclaration, served.data = extended.data.map g ∧
      (∀ d, (g d).frame = d.frame) ∧ (∀ d, isNew beans d = false → g d = d) ∧
      ∀ d, d.category = .data → g d = d ∨ ∃ f, g d = d.mapTypes f := by
  have hrewritten : ∃ g : DataDeclaration → DataDeclaration,
      represented.data = extended.data.map g ∧ (∀ d, (g d).frame = d.frame) ∧
      (∀ d, isNew beans d = false → g d = d) ∧
      ∀ d, d.category = .data → g d = d ∨ ∃ f, g d = d.mapTypes f := by
    refine ⟨_, hrepresented.data_eq, fun d => ?_, fun d hd => ?_, fun d _ => ?_⟩
    · split
      · exact d.frame_mapTypes _
      · rfl
    · rw [hd]
      rfl
    · split
      · exact .inr ⟨_, rfl⟩
      · exact .inl rfl
  rcases hserved with rfl | ⟨-, rfl⟩
  · exact hrewritten
  · obtain ⟨g, hg, hframe, hold, hdata⟩ := hrewritten
    obtain ⟨copy, hcopy, hframe', hdata'⟩ := exists_copying represented response
    have hkept : ∀ d, d.category = .data → copy (g d) = g d := fun d hd =>
      hdata' (g d) ((congrArg (·.category) (hframe d)).trans hd)
    refine ⟨fun d => copy (g d), ?_, fun d => (hframe' _).trans (hframe d), fun d hd => ?_,
      fun d hd => ?_⟩
    · rw [hcopy, hg, List.map_map]
      rfl
    · exact (hkept d (category_of_isNew hd)).trans (hold d hd)
    · dsimp only
      rw [hkept d hd]
      exact hdata d hd

end Model

namespace Service

variable {service : Service} {table : SymbolTable} {role : Role} {d : DataDeclaration}

/-- No declaration of services is named after a query bean. -/
theorem Role.origin_ne (role : Role) (name : String) :
    role.origin ≠ .entity name "QueryParams" := by
  have hkey (key : GroupKey) {suffix : String} (hsuffix : suffix ≠ "QueryParams") :
      key.origin suffix ≠ .entity name "QueryParams" := by
    cases key with
    | resource entity => exact fun heq => hsuffix (Origin.entity.inj heq).2
    | named text => exact Origin.noConfusion
  cases role with
  | surface group => exact hkey group.key (by decide)
  | httpClient => exact Origin.noConfusion
  | client group => exact hkey group.key (by decide)

variable {beans : List DataDeclaration}

theorem DeclaredFor.not_isQueryParams (h : service.DeclaredFor table beans role d) :
    ¬table.IsQueryParams d.symbol := by
  rintro ⟨name, hname⟩
  have horigin := SymbolTable.origin?_of_find? h.1
  exact role.origin_ne name (Option.some.inj (horigin.symm.trans hname))

theorem DeclaredFor.adds (h : service.DeclaredFor table beans role d) {d' : DataDeclaration}
    (hframe : d'.frame = d.frame) : service.application.Adds table d' := by
  have hsymbol : d'.symbol = d.symbol := congrArg (·.symbol) hframe
  have hcategory : d'.category = d.category := congrArg (·.category) hframe
  obtain ⟨hissued, hdeclared⟩ := h
  cases hdeclared with
  | surface _ _ | client _ _ _ _ _ => exact .service hcategory
  | httpClient => exact .httpClient hcategory (hsymbol ▸ hissued)

theorem IsBean.isQueryParams (h : service.IsBean table d) : table.IsQueryParams d.symbol := by
  obtain ⟨_, -, bean, -, hissued, -⟩ := h
  exact ⟨bean.name, SymbolTable.origin?_of_find? hissued⟩

/-- A bean is still one after its types are rewritten. -/
theorem IsBean.adds (h : service.IsBean table d) {d' : DataDeclaration}
    (hrewritten : d' = d ∨ ∃ f, d' = d.mapTypes f) : service.application.Adds table d' := by
  obtain ⟨endpoint, hendpoint, bean, hbean, hissued, hdeclares⟩ := h
  rcases hrewritten with rfl | ⟨f, rfl⟩
  · exact .queryBean hendpoint hbean hissued hdeclares.shape
  · refine .queryBean hendpoint hbean hissued ?_
    rw [hdeclares.shape]
    rfl

def Role.category : Role → Category
  | surface _ | client _ => .service
  | httpClient => .servicePrerequisite

theorem IsDeclared.category_eq (h : service.IsDeclared table beans role d) :
    d.category = role.category := by
  cases h <;> rfl

/-- At most one role is that of what clients send requests with. -/
theorem count_servicePrerequisite_roles_le (service : Service) :
    (service.roles.map Role.category).count .servicePrerequisite ≤ 1 := by
  have hgroups (role : EndpointGroup → Role) (hrole : ∀ group, (role group).category = .service) :
      (service.groups.map fun group => (role group).category).count .servicePrerequisite = 0 := by
    rw [List.count_eq_zero]
    intro hmem
    obtain ⟨group, -, hgroup⟩ := List.mem_map.mp hmem
    rw [hrole group] at hgroup
    cases hgroup
  have hsurfaces := hgroups .surface fun _ => rfl
  have hclients := hgroups .client fun _ => rfl
  unfold roles Application.roles
  rw [List.map_append, List.count_append]
  split <;> split <;> simp_all [Role.category, groups, Function.comp_def]

theorem IsBean.category_eq (h : service.IsBean table d) : d.category = .data := by
  obtain ⟨_, -, _, -, -, hdeclares⟩ := h
  rw [hdeclares.shape]

namespace Extends

variable {model extended : Model} {declared beans : List DataDeclaration}
  {aliases : List AliasDeclaration}
  (h : service.Extends table model extended declared beans aliases)

include h

/-- Data whose symbol is that of no query bean is not taken for new. -/
theorem isNew_eq_false (hcategory : d.category = .data) (hsuffix : ¬table.IsQueryParams d.symbol) :
    Model.isNew (beans.map (·.symbol)) d = false := by
  have hmem : d.symbol ∉ beans.map (·.symbol) := by
    intro hmem
    obtain ⟨b, hb, heq⟩ := List.mem_map.mp hmem
    exact hsuffix (heq ▸ (h.areBeans.each b hb).isQueryParams)
  simp [Model.isNew, hcategory, hmem]

/-- What is added is needed by services, also after it is rewritten. -/
theorem adds {g : DataDeclaration → DataDeclaration} (hframe : ∀ d, (g d).frame = d.frame)
    (hdata : ∀ d, d.category = .data → g d = d ∨ ∃ f, g d = d.mapTypes f) :
    ∀ d ∈ declared ++ beans, service.application.Adds table (g d) := by
  refine List.forall_mem_append.mpr ⟨fun d hd => ?_, fun b hb => ?_⟩
  · obtain ⟨role, -, hrole⟩ := h.exists_role hd
    exact hrole.adds (hframe d)
  · have hbean := h.areBeans.each b hb
    exact hbean.adds (hdata b hbean.category_eq)

theorem count_servicePrerequisite_le :
    ((declared ++ beans).map (·.category)).count .servicePrerequisite ≤ 1 := by
  have hroles : service.roles.map Role.category = declared.map (·.category) :=
    map_eq_map_of_forall₂ h.declaredFor fun _ _ hrole => hrole.2.category_eq.symm
  have hbeans : (beans.map (·.category)).count .servicePrerequisite = 0 := by
    rw [List.count_eq_zero]
    intro hmem
    obtain ⟨b, hb, heq⟩ := List.mem_map.mp hmem
    rw [(h.areBeans.each b hb).category_eq] at heq
    cases heq
  rw [List.map_append, List.count_append, hbeans, ← hroles]
  exact service.count_servicePrerequisite_roles_le

/-- Only beans have symbols of query beans, and these are different. -/
theorem count_symbol_le {s : Symbol} (hs : table.IsQueryParams s) :
    ((declared ++ beans).map (·.symbol)).count s ≤ 1 := by
  have hdeclared : (declared.map (·.symbol)).count s = 0 := by
    rw [List.count_eq_zero]
    intro hmem
    obtain ⟨d, hd, rfl⟩ := List.mem_map.mp hmem
    obtain ⟨role, -, hrole⟩ := h.exists_role hd
    exact hrole.not_isQueryParams hs
  rw [List.map_append, List.count_append, hdeclared, Nat.zero_add]
  exact List.nodup_iff_count_le_one.mp h.areBeans.nodup s

end Extends

end Service

/-! ## Extended models -/

namespace Model

variable {table : SymbolTable} {settings : Settings} {mapper : Mapper}
  {application : Application} {model served : Model}

/-- Data is added behind that of the model, which is kept if none of it could be taken for data of
services. -/
theorem Served.exists_data (h : Served table application settings mapper model served)
    (hcategory : ∀ d ∈ model.data, d.category = .data)
    (hsuffix : ∀ d ∈ model.data, ¬table.IsQueryParams d.symbol) :
    ∃ added, served.data = model.data ++ added ∧ (∀ d ∈ added, application.Adds table d) ∧
      (added.map (·.category)).count .servicePrerequisite ≤ 1 ∧
      ∀ s, table.IsQueryParams s → (added.map (·.symbol)).count s ≤ 1 := by
  cases h with
  | nothing _ => exact ⟨[], by simp, by simp, by simp, by simp⟩
  | @added response declared beans _ extended _ _ _ _ hextends hrepresented hserved _ =>
    obtain ⟨g, hg, hframe, hold, hdata⟩ := exists_rewriting hrepresented hserved
    have hkept : ∀ d ∈ model.data, g d = d := fun d hd =>
      hold d (hextends.isNew_eq_false (hcategory d hd) (hsuffix d hd))
    have hcategories : ((declared ++ beans).map g).map (·.category) =
        (declared ++ beans).map (·.category) := by
      rw [List.map_map]
      exact List.map_congr_left fun d _ => congrArg (·.category) (hframe d)
    have hsymbols : ((declared ++ beans).map g).map (·.symbol) =
        (declared ++ beans).map (·.symbol) := by
      rw [List.map_map]
      exact List.map_congr_left fun d _ => congrArg (·.symbol) (hframe d)
    refine ⟨(declared ++ beans).map g, ?_, List.forall_mem_map.mpr (hextends.adds hframe hdata), ?_,
      fun s hs => ?_⟩
    · rw [hg, hextends.data_eq, List.append_assoc, List.map_append, map_eq_of_fixed hkept]
    · rw [hcategories]
      exact hextends.count_servicePrerequisite_le
    · rw [hsymbols]
      exact hextends.count_symbol_le hs

/-- Symbols that were issued for something else are not those of query beans later. -/
theorem not_isQueryParams_of_issued (application : Application) (settings : Settings)
    (mapper : Mapper) {session : Session}
    (hissued : ∀ d ∈ model.data, ∃ origin, session.symbols.origin? d.symbol = some origin ∧
      ∀ name, origin ≠ .entity name "QueryParams") :
    ∀ d ∈ model.data, ¬((model.withServices application settings mapper).run
      session).2.symbols.IsQueryParams d.symbol := by
  rintro d hd ⟨name, hname⟩
  obtain ⟨origin, horigin, hne⟩ := hissued d hd
  have hgrows := (@yields_withServices {} {} settings mapper application model).grows session
  exact hne name (Option.some.inj ((SymbolTable.origin?_mono hgrows horigin).symm.trans hname))

/-- Services are added behind what was there. Data whose symbols were issued for other things than
query beans is kept as it is, and so are aliases, helpers and enums. Of each query bean there is one
declaration at most. -/
theorem appends_withServices (model : Model) (application : Application) (settings : Settings)
    (mapper : Mapper) (session : Session) (hcategory : ∀ d ∈ model.data, d.category = .data)
    (hissued : ∀ d ∈ model.data, ∃ origin, session.symbols.origin? d.symbol = some origin ∧
      ∀ name, origin ≠ .entity name "QueryParams") :
    let run := (model.withServices application settings mapper).run session
    (∃ added, run.1.data = model.data ++ added ∧ (∀ d ∈ added, application.Adds run.2.symbols d) ∧
      (added.map (·.category)).count .servicePrerequisite ≤ 1) ∧
    (∀ s, run.2.symbols.IsQueryParams s → (run.1.data.map (·.symbol)).count s ≤ 1) ∧
    model.aliases <+: run.1.aliases ∧ model.helpers <+: run.1.helpers ∧
    run.1.enums = model.enums ∧ run.1.inlinedEnums = model.inlinedEnums := by
  intro run
  have hsuffix := not_isQueryParams_of_issued application settings mapper hissued
  have hserved : Served run.2.symbols application settings mapper model run.1 :=
    yields_withServices.holds (le_refl session.symbols) (le_refl _)
  have hhelpers : model.helpers <+: run.1.helpers :=
    yields_withServices_helpers.holds (le_refl session.symbols) (le_refl run.2.symbols)
  obtain ⟨added, hdata, hadds, hhttp, hbeans⟩ := hserved.exists_data hcategory hsuffix
  refine ⟨⟨added, hdata, hadds, hhttp⟩, fun s hs => ?_, hserved.aliases_prefix, hhelpers,
    hserved.enums_eq, hserved.inlinedEnums_eq⟩
  have hold : (model.data.map (·.symbol)).count s = 0 := by
    rw [List.count_eq_zero]
    intro hmem
    obtain ⟨d, hd, rfl⟩ := List.mem_map.mp hmem
    exact hsuffix d hd hs
  rw [hdata, List.map_append, List.count_append, hold, Nat.zero_add]
  exact hbeans s hs

end Model

/-- A declaration with a date that is not represented. -/
def datedModel : Model where
  data := [{ symbol := ⟨0⟩, properties := [{ name := "placed", type := .primitive .temporal }] }]

/-- A session in which the symbol of the declaration was issued. -/
def datedSession : Session where
  symbols := .ofOrigins [.entity "Order" ""]

/-- Settings under which the dates of services become texts. -/
def datedSettings : Settings :=
  { orderSettings with dateMapping := .asString }

/-- The date stays as it is, although those of services are represented. -/
theorem appends_dated : (∀ d ∈ datedModel.data, d.category = .data) ∧
    (∀ d ∈ datedModel.data, ∃ origin, datedSession.symbols.origin? d.symbol = some origin ∧
      ∀ name, origin ≠ .entity name "QueryParams") ∧
    datedModel.data <+: ((datedModel.withServices orderApplication datedSettings
      (.builtIn datedSettings {})).run datedSession).1.data := by
  have hcategory : ∀ d ∈ datedModel.data, d.category = .data := List.forall_mem_singleton.mpr rfl
  have hissued : ∀ d ∈ datedModel.data,
      ∃ origin, datedSession.symbols.origin? d.symbol = some origin ∧
      ∀ name, origin ≠ .entity name "QueryParams" :=
    List.forall_mem_singleton.mpr ⟨.entity "Order" "", rfl, by simp⟩
  obtain ⟨⟨added, hdata, -⟩, -⟩ := Model.appends_withServices datedModel orderApplication
    datedSettings (.builtIn datedSettings {}) datedSession hcategory hissued
  exact ⟨hcategory, hissued, added, hdata.symm⟩

end Typings
