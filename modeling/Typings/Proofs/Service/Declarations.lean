import Typings.Proofs.Model.Representation
import Typings.Proofs.Model.Revival
import Typings.Proofs.Model.TaggedUnions
import Typings.Proofs.Service.Endpoints
import Typings.Proofs.Service.Groups
import Typings.Service.Declarations

/-!
# Declarations of services

## Main definitions

* `Service.Role`, `Application.roles`: surfaces and clients, and those that are declared.
* `Service.IsDeclared`: a declaration has a role.
* `Service.Extends`: a model has the declarations of services.

## Main results

* `Service.yields_declarations`: the declarations of services, one for each role.
* `Service.yields_extend`: the declarations of services are added to a model.
-/

namespace Typings

theorem GroupKey.addSuffix_origin (key : GroupKey) (suffix : String) :
    (key.origin "").addSuffix suffix = key.origin suffix := by
  cases key <;> simp [origin, Origin.addSuffix]

namespace Service

/-- The groups of the application. -/
def groups (service : Service) : List EndpointGroup :=
  service.application.groups service.settings.restGrouping

theorem endpoints_subset {service : Service} {group : EndpointGroup} (h : group ∈ service.groups) :
    group.endpoints ⊆ service.application.methods := by
  rw [groups, Application.groups_eq] at h
  obtain ⟨key, -, rfl⟩ := List.mem_map.mp h
  intro endpoint hendpoint
  exact List.mem_of_mem_filter (List.mem_mergeSort.mp hendpoint)

/-- The roles of the declarations of services. -/
inductive Role where
  | surface (group : EndpointGroup)
  | httpClient
  | client (group : EndpointGroup)

/-- What a declaration with a role is named after. -/
def Role.origin : Role → Origin
  | surface group => group.key.origin ""
  | httpClient => .synthetic "HttpClient"
  | client group => group.key.origin "Client"

end Service

/-- The roles that are declared: surfaces, and clients with what they send requests with. -/
def Application.roles (application : Application) (settings : Settings) : List Service.Role :=
  let groups := application.groups settings.restGrouping
  (if settings.restCodegen.surface then groups.map .surface else []) ++
    if settings.restCodegen.client then .httpClient :: groups.map .client else []

namespace Service

open Work (yields_report yields_warn yields_symbol yields_syntheticSymbol yields_suffixedSymbol)

/-- The roles of the declarations of the application. -/
def roles (service : Service) : List Role :=
  service.application.roles service.settings

/-- The interfaces of the client of a group: its surface, if there is one. -/
def IsImplemented (service : Service) (table : SymbolTable) (group : EndpointGroup)
    (interfaces : List TypeExpr) : Prop :=
  interfaces = [] ∨ service.settings.restCodegen.surface = true ∧
    ∃ surface, table.find? (group.key.origin "") = some surface ∧
      interfaces = [service.refer surface]

/-- What the declarations of services are, by their roles. -/
inductive IsDeclared (service : Service) (table : SymbolTable) (beans : List DataDeclaration) :
    Role → DataDeclaration → Prop where
  | surface {group : EndpointGroup} {symbol : Symbol} {methods : List Method}
      (hgroup : group ∈ service.groups)
      (hmethods : List.Forall₂ (service.IsMethod table beans false) group.endpoints methods) :
      IsDeclared service table beans (.surface group)
        { symbol, category := .service, typeParameters := service.typeParameters, methods }
  | httpClient {symbol : Symbol} :
      IsDeclared service table beans .httpClient
        { symbol
          category := .servicePrerequisite
          typeParameters := service.typeParameters
          methods :=
            [{ name := "request"
               typeParameters := ["R"]
               parameters := [{ name := "requestConfig", type := .shape service.requestFields }]
               result := service.responseOf (.var "R") }] }
  | client {group : EndpointGroup} {symbol httpClient : Symbol} {interfaces : List TypeExpr}
      {methods : List Method} (hclient : service.settings.restCodegen.client = true)
      (hgroup : group ∈ service.groups) (hinterfaces : service.IsImplemented table group interfaces)
      (hhttpClient : table.find? (.synthetic "HttpClient") = some httpClient)
      (hmethods : List.Forall₂ (service.IsMethod table beans true) group.endpoints methods) :
      IsDeclared service table beans (.client group)
        { symbol
          category := .service
          isClass := true
          typeParameters := service.typeParameters
          interfaces
          ctor := some
            { parameters :=
                [{ name := "httpClient"
                   type := service.refer httpClient
                   accessibility := some .protectedMember }] }
          methods }

/-- Whether a declaration has a role and is named after it. -/
def DeclaredFor (service : Service) (table : SymbolTable) (beans : List DataDeclaration)
    (role : Role) (d : DataDeclaration) : Prop :=
  table.find? role.origin = some d.symbol ∧ service.IsDeclared table beans role d

variable {service : Service} {lo hi : SymbolTable} {final : List DataDeclaration}

theorem yields_surface {group : EndpointGroup} (hgroup : group ∈ service.groups) :
    ServiceWork.Yields lo hi (service.AreBeans hi) final (service.surface group)
      (service.DeclaredFor hi final (.surface group)) :=
  .bind (.lift (yields_symbol _)) fun _ =>
    .bind (yields_groupMethods false (endpoints_subset hgroup)) fun _ =>
      .pure fun hmethods hsymbol => ⟨hsymbol, .surface hgroup hmethods⟩

theorem yields_httpClient (final : List DataDeclaration) :
    Work.Yields lo hi service.httpClient
      (service.DeclaredFor hi final .httpClient) :=
  .bind (yields_syntheticSymbol "HttpClient") fun _ => .pure fun hsymbol => ⟨hsymbol, .httpClient⟩

theorem yields_clientSymbol (group : EndpointGroup) :
    Work.Yields lo hi (service.clientSymbol group) fun issued =>
      hi.find? (group.key.origin "Client") = some issued.1 ∧
        service.IsImplemented hi group issued.2 := by
  unfold clientSymbol
  split
  case isTrue hsurface =>
    refine .bind_after (yields_symbol _) fun s =>
      .bind (yields_suffixedSymbol _ "Client") fun symbol => .pure fun hsymbol hbase => ?_
    have hclient := hsymbol _ (Work.origin?_run_symbol (group.key.origin "") s)
    rw [GroupKey.addSuffix_origin] at hclient
    exact ⟨hclient, .inr ⟨hsurface, _, hbase, rfl⟩⟩
  case isFalse =>
    exact .bind (yields_symbol _) fun symbol => .pure fun hsymbol => ⟨hsymbol, .inl rfl⟩

theorem yields_client (hclient : service.settings.restCodegen.client = true) (httpClient : Symbol)
    {group : EndpointGroup} (hgroup : group ∈ service.groups) :
    ServiceWork.Yields lo hi (service.AreBeans hi) final (service.client httpClient group)
      fun d => hi.find? (.synthetic "HttpClient") = some httpClient →
        service.DeclaredFor hi final (.client group) d :=
  .bind (.lift (yields_clientSymbol group)) fun _ =>
    .bind (yields_groupMethods true (endpoints_subset hgroup)) fun _ =>
      .pure fun hmethods ⟨hsymbol, hinterfaces⟩ hhttpClient =>
        ⟨hsymbol, .client hclient hgroup hinterfaces hhttpClient hmethods⟩

theorem yields_surfaces :
    ServiceWork.Yields lo hi (service.AreBeans hi) final (service.surfaces service.groups)
      (List.Forall₂ (service.DeclaredFor hi final)
        (if service.settings.restCodegen.surface then service.groups.map .surface else [])) := by
  unfold surfaces
  split
  · refine (ServiceWork.Yields.mapM fun group hgroup =>
      yields_surface hgroup).mono fun declared h => ?_
    exact List.forall₂_map_left_iff.mpr h
  · exact .pure .nil

theorem yields_clients :
    ServiceWork.Yields lo hi (service.AreBeans hi) final (service.clients service.groups)
      (List.Forall₂ (service.DeclaredFor hi final)
        (if service.settings.restCodegen.client then .httpClient :: service.groups.map .client
          else [])) := by
  unfold clients
  split
  case isTrue hclient =>
    refine .bind (.lift (yields_httpClient final)) fun httpClient =>
      .bind (.mapM fun group hgroup =>
        yields_client hclient httpClient.symbol hgroup) fun clients =>
          .pure fun hclients hhttpClient => ?_
    refine .cons hhttpClient (List.forall₂_map_left_iff.mpr (hclients.imp fun _ _ h => ?_))
    exact h hhttpClient.1
  case isFalse => exact .pure .nil

/-- There is one declaration of services for each role. -/
theorem yields_declarations :
    ServiceWork.Yields lo hi (service.AreBeans hi) final (service.declarations service.groups)
      (List.Forall₂ (service.DeclaredFor hi final) service.roles) :=
  .bind yields_surfaces fun _ => .bind yields_clients fun _ =>
    .pure fun hclients hsurfaces => List.rel_append hsurfaces hclients

/-! ## What declarations of services are made of -/

theorem within_requestFields {voc : Vocabulary} (hprimitive : ∀ k, voc.primitive k)
    (hcontent : voc.var "R") (hoption : ∀ v ∈ service.typeParameters, voc.var v) :
    ∀ f ∈ service.requestFields, f.2.Within voc := by
  rw [requestFields, List.forall_mem_append]
  refine ⟨by simp [hprimitive, hcontent], ?_⟩
  rw [List.forall_mem_map]
  intro t ht
  exact TypeExpr.within_orAbsent.mpr (within_optionsType? hoption t (Option.mem_toList.mp ht))

namespace IsDeclared

variable {beans : List DataDeclaration} {role : Role} {d : DataDeclaration}
  (h : service.IsDeclared hi beans role d)

include h

theorem properties_eq : d.properties = [] := by
  cases h <;> rfl

theorem unionAlias_eq : d.unionAlias = none := by
  cases h <;> rfl

theorem category_ne : d.category ≠ .data := by
  cases h <;> exact nofun

theorem typeParameters_eq : d.typeParameters = service.typeParameters := by
  cases h <;> rfl

theorem of_category_ne (hcategory : d.category ≠ .service) :
    role = .httpClient ∧ d.supertypes = [] := by
  cases h with
  | httpClient => exact ⟨rfl, rfl⟩
  | surface _ _ | client _ _ _ _ _ => exact absurd rfl hcategory

/-- The only supertype is a surface. -/
theorem exists_of_mem_supertypes {t : TypeExpr} (ht : t ∈ d.supertypes) :
    ∃ group ∈ service.groups, service.settings.restCodegen.surface = true ∧
      ∃ surface, hi.find? (group.key.origin "") = some surface ∧ t = service.refer surface := by
  cases h with
  | surface _ _ => exact absurd ht List.not_mem_nil
  | httpClient => exact absurd ht List.not_mem_nil
  | @client group _ _ _ _ _ hgroup hinterfaces _ _ =>
    rcases hinterfaces with rfl | ⟨hsurface, surface, hfound, rfl⟩
    · exact absurd ht List.not_mem_nil
    · exact ⟨group, hgroup, hsurface, surface, hfound, List.mem_singleton.mp ht⟩

/-- The methods mention what endpoints mention, and the constructor what sends requests. -/
theorem membersWithin {voc : Vocabulary} (hfits : service.Fits hi beans voc)
    (hbinds : ∀ endpoint ∈ service.application.methods, voc.Binds endpoint.sourceTypes)
    (hclient : ∀ s, service.settings.restCodegen.client = true →
      hi.find? (.synthetic "HttpClient") = some s → ∀ n, voc.symbol s n) :
    d.MembersWithin voc := by
  have hmethods : ∀ {client : Bool} {group : EndpointGroup} {methods : List Method},
      group ∈ service.groups →
        List.Forall₂ (service.IsMethod hi beans client) group.endpoints methods →
          ∀ m ∈ methods, m.Within voc := by
    intro client group methods hgroup hrel m hm
    obtain ⟨endpoint, hendpoint, hmethod⟩ := exists_mem_of_forall₂ hrel hm
    exact hmethod.within voc hfits (hbinds endpoint (endpoints_subset hgroup hendpoint))
  cases h with
  | surface hgroup hrel => exact ⟨hmethods hgroup hrel, nofun⟩
  | httpClient =>
    refine ⟨?_, nofun⟩
    rw [List.forall_mem_singleton]
    have hcontent : (voc.binding ["R"]).var "R" := Or.inr List.mem_cons_self
    refine ⟨?_, TypeExpr.within_reference.mpr ⟨hfits.response, by simp⟩⟩
    rw [List.forall_mem_singleton]
    refine TypeExpr.within_shape.mpr (within_requestFields hfits.mapped.primitive hcontent ?_)
    exact fun v hv => Or.inl (hfits.option v hv)
  | client hmode hgroup _ hhttpClient hrel =>
    refine ⟨hmethods hgroup hrel, fun c hc p hp => ?_⟩
    obtain rfl := Option.some.inj hc
    obtain rfl := List.mem_singleton.mp hp
    refine TypeExpr.within_reference.mpr ⟨hclient _ hmode hhttpClient _, ?_⟩
    simpa using hfits.option

theorem codeWithin {voc : CodeVocabulary}
    (hvoc : service.settings.restCodegen.client = true →
      ∀ name ∈ Helper.uriEncoding.functions, voc.callable name) : d.CodeWithin voc := by
  have hmethods : ∀ {client : Bool} {group : EndpointGroup} {methods : List Method},
      (client = true → service.settings.restCodegen.client = true) →
        List.Forall₂ (service.IsMethod hi beans client) group.endpoints methods →
          ∀ m ∈ methods, m.CodeWithin voc := by
    intro client group methods hmode hrel m hm
    obtain ⟨endpoint, -, hmethod⟩ := exists_mem_of_forall₂ hrel hm
    exact hmethod.codeWithin fun hclient => hvoc (hmode hclient)
  refine DataDeclaration.codeWithin_iff.mpr ?_
  cases h with
  | surface _ hrel => exact ⟨hmethods (by simp) hrel, nofun⟩
  | httpClient => exact ⟨by simp [Method.CodeWithin], nofun⟩
  | client hmode _ _ _ hrel =>
    refine ⟨hmethods (fun _ => hmode) hrel, fun c hc => ?_⟩
    obtain rfl := Option.some.inj hc
    exact statementsWithin_nil

end IsDeclared

/-! ## Extended models -/

def IsResponse (table : SymbolTable) (definition : TypeExpr) : Prop :=
  (∃ text, definition = .verbatim text) ∨
    ∃ promise, table.find? (.synthetic "Promise") = some promise ∧
      definition = .reference promise [.var "R"]

/-- Whether aliases declare the type of responses, unless it is declared. -/
def DeclaresResponse (service : Service) (table : SymbolTable) (model : Model)
    (aliases : List AliasDeclaration) : Prop :=
  (service.response ∈ model.aliases.map (·.symbol) ∧ aliases = []) ∨
    service.response ∉ model.aliases.map (·.symbol) ∧ ∃ definition, IsResponse table definition ∧
      aliases = [{ symbol := service.response, typeParameters := ["R"], definition }]

/-- Whether a model is another one with the declarations of services. -/
structure Extends (service : Service) (table : SymbolTable) (model extended : Model)
    (declared beans : List DataDeclaration) (aliases : List AliasDeclaration) : Prop where
  data_eq : extended.data = model.data ++ declared ++ beans
  declaredFor : List.Forall₂ (service.DeclaredFor table beans) service.roles declared
  areBeans : service.AreBeans table beans
  aliases_eq : extended.aliases = model.aliases ++ aliases
  declaresResponse : service.DeclaresResponse table model aliases
  enums_eq : extended.enums = model.enums
  inlinedEnums_eq : extended.inlinedEnums = model.inlinedEnums
  mem_helpers : ∀ helper, helper ∈ extended.helpers ↔
    helper ∈ model.helpers ∨ service.settings.restCodegen.client = true ∧ helper = .uriEncoding

namespace Extends

variable {model extended : Model} {declared beans : List DataDeclaration}
  {aliases : List AliasDeclaration}
  (h : service.Extends hi model extended declared beans aliases)

include h

theorem mem_data {d : DataDeclaration} :
    d ∈ extended.data ↔ d ∈ model.data ∨ d ∈ declared ∨ d ∈ beans := by
  rw [h.data_eq, List.append_assoc, List.mem_append, List.mem_append]

theorem exists_role {d : DataDeclaration} (hd : d ∈ declared) :
    ∃ role ∈ service.roles, service.DeclaredFor hi beans role d :=
  exists_mem_of_forall₂ h.declaredFor hd

theorem exists_declared {role : Role} (hrole : role ∈ service.roles) :
    ∃ d ∈ declared, service.DeclaredFor hi beans role d :=
  exists_mem_of_forall₂ h.declaredFor.flip hrole

/-- Where there are clients, there is what they send requests with. -/
theorem exists_httpClient (hclient : service.settings.restCodegen.client = true) :
    ∃ d ∈ declared, d.category ≠ .service ∧ hi.find? (.synthetic "HttpClient") = some d.symbol := by
  have hrole : Role.httpClient ∈ service.roles := by simp [roles, Application.roles, hclient]
  obtain ⟨d, hd, hsymbol, hdeclared⟩ := h.exists_declared hrole
  refine ⟨d, hd, ?_, hsymbol⟩
  cases hdeclared
  exact nofun

/-- Where there are surfaces, every group has one. -/
theorem exists_surface (hsurface : service.settings.restCodegen.surface = true)
    {group : EndpointGroup} (hgroup : group ∈ service.groups) :
    ∃ d ∈ declared, hi.find? (group.key.origin "") = some d.symbol := by
  have hrole : Role.surface group ∈ service.roles := by
    simpa [roles, Application.roles, hsurface, groups] using hgroup
  obtain ⟨d, hd, hsymbol, -⟩ := h.exists_declared hrole
  exact ⟨d, hd, hsymbol⟩

theorem response_mem : service.response ∈ extended.aliases.map (·.symbol) := by
  rw [h.aliases_eq, List.map_append, List.mem_append]
  rcases h.declaresResponse with ⟨hfound, rfl⟩ | ⟨-, definition, -, rfl⟩
  · exact .inl hfound
  · exact .inr List.mem_cons_self

theorem unionsDeclared (hunions : model.UnionsDeclared) : extended.UnionsDeclared := by
  intro d hd s hs
  rcases h.mem_data.mp hd with hd | hd | hd
  · rw [h.aliases_eq, List.map_append]
    exact List.mem_append_left _ (hunions d hd s hs)
  · obtain ⟨role, -, -, hdeclared⟩ := h.exists_role hd
    exact nomatch hdeclared.unionAlias_eq ▸ hs
  · obtain ⟨_, -, _, -, -, hbean⟩ := h.areBeans.each d hd
    rw [hbean.shape] at hs
    exact nomatch hs

theorem codeWithin {voc : CodeVocabulary} (hmodel : model.CodeWithin voc)
    (hhelper : ∀ helper ∈ extended.helpers, ∀ name ∈ helper.functions, voc.callable name) :
    extended.CodeWithin voc := by
  intro d hd
  rcases h.mem_data.mp hd with hd | hd | hd
  · exact hmodel d hd
  · obtain ⟨role, -, -, hdeclared⟩ := h.exists_role hd
    exact hdeclared.codeWithin fun hclient =>
      hhelper _ ((h.mem_helpers _).mpr (Or.inr ⟨hclient, rfl⟩))
  · obtain ⟨_, -, _, -, -, hbean⟩ := h.areBeans.each d hd
    rw [hbean.shape]
    exact DataDeclaration.codeWithin_iff.mpr ⟨nofun, nofun⟩

end Extends

theorem yields_responseAlias (model : Model) :
    Work.Yields lo hi (service.responseAlias model) (service.DeclaresResponse hi model) := by
  have hdefinition : Work.Yields lo hi service.responseDefinition (IsResponse hi) := by
    unfold responseDefinition
    split
    · exact .pure (Or.inl ⟨_, rfl⟩)
    · exact .bind (yields_syntheticSymbol "Promise") fun promise =>
        .pure fun h => Or.inr ⟨promise, h, rfl⟩
  unfold responseAlias
  split
  case isTrue hfound => exact .pure (Or.inl ⟨Model.isSome_findAlias?.mp hfound, rfl⟩)
  case isFalse hmissing =>
    exact .bind hdefinition fun definition => .pure fun h =>
      Or.inr ⟨mt Model.isSome_findAlias?.mpr hmissing, definition, h, rfl⟩

theorem yields_run_declarations :
    Work.Yields lo hi ((service.declarations service.groups).run []) fun result =>
      service.AreBeans hi result.2 ∧
        List.Forall₂ (service.DeclaredFor hi result.2) service.roles result.1 :=
  ServiceWork.Yields.run ⟨by simp, by simp⟩ fun _ => yields_declarations

/-- Extending a model adds the declarations of services. -/
theorem yields_extend (model : Model) :
    Work.Yields lo hi (service.extend model) fun result => ∃ declared beans aliases,
      service.Extends hi model result.1 declared beans aliases ∧
        result.2 = beans.map (·.symbol) := by
  refine .bind (yields_responseAlias model) fun aliases =>
    .bind (.forM fun _ => yields_warn _) fun _ => .bind (yields_report _ _ _) fun _ =>
      .bind yields_run_declarations fun ⟨declared, beans⟩ => .pure ?_
  rintro ⟨hbeans, hdeclared⟩ _ _ haliases
  refine ⟨declared, beans, aliases, ?_, rfl⟩
  dsimp only
  split
  case isTrue hclient =>
    exact
      { data_eq := Model.data_withHelper _ _
        declaredFor := hdeclared
        areBeans := hbeans
        aliases_eq := Model.aliases_withHelper _ _
        declaresResponse := haliases
        enums_eq := Model.enums_withHelper _ _
        inlinedEnums_eq := Model.inlinedEnums_withHelper _ _
        mem_helpers := fun helper => by
          rw [Model.mem_helpers_withHelper, or_comm, and_iff_right hclient] }
  case isFalse hclient =>
    exact
      { data_eq := rfl
        declaredFor := hdeclared
        areBeans := hbeans
        aliases_eq := rfl
        declaresResponse := haliases
        enums_eq := rfl
        inlinedEnums_eq := rfl
        mem_helpers := fun helper => by simp [hclient] }

/-- Extending a model puts the declarations of services behind its data, whatever is known of them,
and query beans behind these. -/
theorem yields_extend_of {Q : List DataDeclaration → Prop}
    (hdeclared : ∀ final, ServiceWork.Yields lo hi (service.AreBeans hi) final
      (service.declarations service.groups) Q) (model : Model) :
    Work.Yields lo hi (service.extend model) fun result => ∃ declared beans,
      result.1.data = model.data ++ declared ++ beans ∧ Q declared ∧
        ∀ b ∈ beans, b.category = .data := by
  have hrun : Work.Yields lo hi ((service.declarations service.groups).run []) _ :=
    ServiceWork.Yields.run ⟨by simp, by simp⟩ hdeclared
  refine .bind (yields_responseAlias model) fun aliases =>
    .bind (.forM fun _ => yields_warn _) fun _ => .bind (yields_report _ _ _) fun _ =>
      .bind hrun fun ⟨declared, beans⟩ => .pure ?_
  rintro ⟨hbeans, hdeclared⟩ _ _ _
  refine ⟨declared, beans, ?_, hdeclared, fun b hb => ?_⟩
  · dsimp only
    split
    · exact Model.data_withHelper _ _
    · rfl
  · obtain ⟨_, -, _, -, -, hbean⟩ := hbeans.each b hb
    rw [hbean.shape]

end Service

end Typings
