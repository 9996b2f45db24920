import Typings.Proofs.Model.Choices

/-!
# Clients implement their surfaces

Where an application gets both surfaces and clients, the endpoints of every group are compiled
twice: once for the surface and, with the symbols and the query beans of the first time, once for
the client. What is issued depends on what is issued already, but what an endpoint means in the end
does not, so both times give the same methods. Later steps rewrite both alike, and add to the code
of clients only.

## Main definitions

* `Method.Implements`, `DataDeclaration.Implements`: a method and a client are as they are declared.
* `Service.methodImage`: the method of an endpoint, by the symbols that are issued in the end.
* `Model.AddsClients`: a model is another one with surfaces and the clients that implement them.

## Main results

* `Service.yields_methodsImage`: the methods of a group do not depend on when they are compiled.
* `Model.AddsClients.represent`, `Model.AddsClients.withCopyFunctions`: later steps keep clients.
* `Model.addsClients_withServices`: every client implements the surface of its group.
-/

namespace Typings

open Work (yields_symbol yields_syntheticSymbol yields_suffixedSymbol)

/-! ## Implementations -/

/-- Whether a method is a declared one with a body. -/
structure Method.Implements (declared implemented : Method) : Prop where
  declared_body : declared.body = none
  body : implemented.body.isSome = true
  agrees : { implemented with body := none } = declared

/-- Whether a class of services declares an interface of services as the only one that it
implements, and has its methods, one by one. -/
structure DataDeclaration.Implements (surface client : DataDeclaration) : Prop where
  surface_category : surface.category = .service
  surface_isClass : surface.isClass = false
  category : client.category = .service
  isClass : client.isClass = true
  typeParameters : client.typeParameters = surface.typeParameters
  interfaces : client.interfaces = [.reference surface.symbol (surface.typeParameters.map .var)]
  methods : List.Forall₂ Method.Implements surface.methods client.methods

/-- Whether a declaration is named after a group and has a method for each endpoint. -/
structure EndpointGroup.OfferedBy (table : SymbolTable) (group : EndpointGroup)
    (d : DataDeclaration) : Prop where
  issued : table.find? (group.key.origin "") = some d.symbol
  length : d.methods.length = group.endpoints.length

/-- Whether a model is another one with the surfaces of all groups and, for each, a client that
implements it. Besides, there is what clients send requests with, and there are query beans. -/
def Model.AddsClients (table : SymbolTable) (groups : List EndpointGroup) (model served : Model) :
    Prop :=
  ∃ (kept surfaces : List DataDeclaration) (http : DataDeclaration)
      (clients beans : List DataDeclaration),
    served.data = kept ++ (surfaces ++ http :: clients) ++ beans ∧
    kept.map (·.frame) = model.frames ∧
    List.Forall₂ (EndpointGroup.OfferedBy table) groups surfaces ∧
    List.Forall₂ DataDeclaration.Implements surfaces clients ∧
    http.category = .servicePrerequisite ∧ ∀ b ∈ beans, b.category = .data

/-- Two lists whose entries are related to those of a third one are related entry by entry. -/
theorem forall₂_of_same_left {α β γ : Type} {R : α → β → Prop} {S : α → γ → Prop} {T : β → γ → Prop}
    {as : List α} {bs : List β} {cs : List γ} (h : List.Forall₂ R as bs) (h' : List.Forall₂ S as cs)
    (himp : ∀ a b c, R a b → S a c → T b c) : List.Forall₂ T bs cs := by
  induction h generalizing cs with
  | nil =>
    cases h'
    exact .nil
  | cons hab _ ih =>
    cases h' with
    | cons hac hrest => exact .cons (himp _ _ _ hab hac) (ih hrest)

/-! ## Images of groups -/

/-- Whether several endpoints of a group have the name of the given one. -/
def EndpointGroup.shares (group : EndpointGroup) (endpoint : Endpoint) : Bool :=
  decide (1 < group.endpoints.countP (·.name == endpoint.name))

namespace Service

/-- The method of an endpoint, with code in a client. -/
def methodImage (service : Service) (table : SymbolTable) (client : Bool) (group : EndpointGroup)
    (endpoint : Endpoint) : Method where
  name := service.methodName endpoint (group.shares endpoint)
  parameters := service.parametersImage table endpoint
  result := service.resultImage table endpoint
  body := if client then some (service.clientBody endpoint) else none
  comments := service.methodComments endpoint

def methodsImage (service : Service) (table : SymbolTable) (client : Bool) (group : EndpointGroup) :
    List Method :=
  group.endpoints.map (service.methodImage table client group)

/-- Whether a declaration is the surface of a group. -/
structure IsSurface (service : Service) (table : SymbolTable) (group : EndpointGroup)
    (d : DataDeclaration) : Prop where
  issued : table.find? (group.key.origin "") = some d.symbol
  category : d.category = .service
  isClass : d.isClass = false
  typeParameters : d.typeParameters = service.typeParameters
  methods : d.methods = service.methodsImage table false group

/-- Whether a declaration is the client of a group. -/
structure IsClient (service : Service) (table : SymbolTable) (group : EndpointGroup)
    (d : DataDeclaration) : Prop where
  implemented : ∃ surface, table.find? (group.key.origin "") = some surface ∧
    d.interfaces = [service.refer surface]
  category : d.category = .service
  isClass : d.isClass = true
  typeParameters : d.typeParameters = service.typeParameters
  methods : d.methods = service.methodsImage table true group

variable {service : Service} {lo hi : SymbolTable} {final : List DataDeclaration}
  {group : EndpointGroup}

theorem yields_methodImage (client : Bool) {endpoint : Endpoint}
    (hendpoint : endpoint ∈ service.application.methods) :
    ServiceWork.Yields lo hi (service.AreBeans hi) final
      (service.method client (group.shares endpoint) endpoint)
      (service.methodImage hi client group endpoint = ·) :=
  .bind (yields_parameters hendpoint) fun _ => .bind (.lift (yields_result endpoint)) fun _ =>
    .pure fun hresult hparameters => by rw [hresult, hparameters.1, methodImage]

/-- The methods of a group depend on the symbols that are issued in the end only. -/
theorem yields_methodsImage (client : Bool) (hgroup : group ∈ service.groups) :
    ServiceWork.Yields lo hi (service.AreBeans hi) final (service.groupMethods client group)
      (service.methodsImage hi client group = ·) := by
  have hmethods : ServiceWork.Yields lo hi (service.AreBeans hi) final
      (service.groupMethods client group)
      (List.Forall₂ (service.methodImage hi client group · = ·) group.endpoints) :=
    .mapM fun _ hendpoint => yields_methodImage client (endpoints_subset hgroup hendpoint)
  refine hmethods.mono fun methods h => ?_
  rw [methodsImage, map_eq_map_of_forall₂ (g := id) h fun _ _ h => h, List.map_id]

theorem yields_isSurface (hgroup : group ∈ service.groups) :
    ServiceWork.Yields lo hi (service.AreBeans hi) final (service.surface group)
      (service.IsSurface hi group) :=
  .bind (.lift (yields_symbol _)) fun _ => .bind (yields_methodsImage false hgroup) fun _ =>
    .pure fun hmethods hsymbol => ⟨hsymbol, rfl, rfl, rfl, hmethods.symm⟩

theorem yields_isClient (hsurface : service.settings.restCodegen.surface = true)
    (hgroup : group ∈ service.groups) (httpClient : Symbol) :
    ServiceWork.Yields lo hi (service.AreBeans hi) final (service.client httpClient group)
      (service.IsClient hi group) := by
  have hnamed : Work.Yields lo hi (service.clientSymbol group) fun issued =>
      ∃ surface, hi.find? (group.key.origin "") = some surface ∧
        issued.2 = [service.refer surface] := by
    unfold clientSymbol
    rw [if_pos hsurface]
    exact .bind (yields_symbol _) fun surface => .bind (yields_suffixedSymbol _ _) fun _ =>
      .pure fun _ hissued => ⟨surface, hissued, rfl⟩
  exact .bind (.lift hnamed) fun _ => .bind (yields_methodsImage true hgroup) fun _ =>
    .pure fun hmethods himplemented => ⟨himplemented, rfl, rfl, rfl, hmethods.symm⟩

theorem yields_surfaces_both (hmode : service.settings.restCodegen = .both) :
    ServiceWork.Yields lo hi (service.AreBeans hi) final (service.surfaces service.groups)
      (List.Forall₂ (service.IsSurface hi) service.groups) := by
  unfold surfaces
  rw [if_pos (by rw [hmode]; rfl)]
  exact .mapM fun _ hgroup => yields_isSurface hgroup

theorem yields_clients_both (hmode : service.settings.restCodegen = .both) :
    ServiceWork.Yields lo hi (service.AreBeans hi) final (service.clients service.groups)
      fun declared => ∃ http clients, declared = http :: clients ∧
        http.category = .servicePrerequisite ∧
        List.Forall₂ (service.IsClient hi) service.groups clients := by
  have hhttp : Work.Yields lo hi service.httpClient (·.category = .servicePrerequisite) :=
    .bind (yields_syntheticSymbol _) fun _ => .pure fun _ => rfl
  have hsurface : service.settings.restCodegen.surface = true := by rw [hmode]; rfl
  unfold clients
  rw [if_pos (by rw [hmode]; rfl)]
  exact .bind (.lift hhttp) fun http =>
    .bind (.mapM fun _ hgroup => yields_isClient hsurface hgroup http.symbol) fun clients =>
      .pure fun hclients hcategory => ⟨http, clients, rfl, hcategory, hclients⟩

/-- The only interface of a client is the surface of its group, and both have the same methods. -/
theorem IsSurface.implements {surface client : DataDeclaration}
    (hsurface : service.IsSurface hi group surface) (hclient : service.IsClient hi group client) :
    surface.Implements client where
  surface_category := hsurface.category
  surface_isClass := hsurface.isClass
  category := hclient.category
  isClass := hclient.isClass
  typeParameters := hclient.typeParameters.trans hsurface.typeParameters.symm
  interfaces := by
    obtain ⟨symbol, hissued, hinterfaces⟩ := hclient.implemented
    obtain rfl : symbol = surface.symbol := Option.some.inj (hissued.symm.trans hsurface.issued)
    rw [hinterfaces, hsurface.typeParameters, refer]
  methods := by
    rw [hsurface.methods, hclient.methods, methodsImage, methodsImage, List.forall₂_map_left_iff,
      List.forall₂_map_right_iff, List.forall₂_same]
    exact fun endpoint _ => ⟨rfl, rfl, rfl⟩

/-- The surfaces of all groups, what clients send requests with, and the clients. -/
theorem yields_declarations_both (hmode : service.settings.restCodegen = .both) :
    ServiceWork.Yields lo hi (service.AreBeans hi) final (service.declarations service.groups)
      fun declared => ∃ surfaces http clients, declared = surfaces ++ http :: clients ∧
        http.category = .servicePrerequisite ∧
        List.Forall₂ (service.IsSurface hi) service.groups surfaces ∧
        List.Forall₂ (service.IsClient hi) service.groups clients := by
  refine .bind (yields_surfaces_both hmode) fun surfaces =>
    .bind (yields_clients_both hmode) fun _ => .pure ?_
  rintro ⟨http, clients, rfl, hcategory, hclients⟩ hsurfaces
  exact ⟨surfaces, http, clients, rfl, hcategory, hsurfaces, hclients⟩

/-- Extending a model adds surfaces and the clients that implement them. -/
theorem yields_extend_both (hmode : service.settings.restCodegen = .both) (model : Model) :
    Work.Yields lo hi (service.extend model) fun result =>
      model.AddsClients hi service.groups result.1 := by
  refine (yields_extend_of (fun _ => yields_declarations_both hmode) model).mono ?_
  rintro result ⟨_, beans, hdata, ⟨surfaces, http, clients, rfl, hcategory, hsurfaces,
    hclients⟩, hbeans⟩
  refine ⟨model.data, surfaces, http, clients, beans, hdata, rfl, hsurfaces.imp fun _ _ h => ?_,
    forall₂_of_same_left hsurfaces hclients fun _ _ _ hsurface => hsurface.implements,
      hcategory, hbeans⟩
  exact ⟨h.issued, by rw [h.methods, methodsImage, List.length_map]⟩

end Service

/-! ## Later steps -/

/-- A copy function changes the code of a method that has code, so what it implements stays the
same. -/
theorem Method.Implements.addCopyFunction {declared implemented : Method}
    (h : declared.Implements implemented) (model : Model) (response : Symbol) :
    declared.Implements (model.addCopyFunction response implemented) where
  declared_body := h.declared_body
  body := by
    unfold Model.addCopyFunction
    split
    · split
      · rfl
      · exact h.body
    · exact h.body
  agrees := by
    rw [Model.addCopyFunction_eq]
    exact h.agrees

/-- A client whose types are rewritten as those of its surface implements it. -/
theorem DataDeclaration.Implements.mapTypes {surface client : DataDeclaration}
    (h : surface.Implements client) (f : TypeExpr → TypeExpr) :
    (surface.mapTypes f).Implements (client.mapTypes f) := by
  refine { h with methods := ?_ }
  simp only [DataDeclaration.mapTypes]
  rw [List.forall₂_map_left_iff, List.forall₂_map_right_iff]
  refine h.methods.imp fun m m' hm => ⟨hm.declared_body, hm.body, ?_⟩
  rw [← hm.agrees]

namespace Model

variable {table : SymbolTable} {groups : List EndpointGroup} {model served served' : Model}

/-- Changing declarations keeps the clients if it keeps what they implement. -/
theorem AddsClients.map (h : model.AddsClients table groups served)
    {f : DataDeclaration → DataDeclaration} (hdata : served'.data = served.data.map f)
    (hframe : ∀ d, (f d).frame = d.frame) (hlength : ∀ d, (f d).methods.length = d.methods.length)
    (himplements : ∀ surface client : DataDeclaration, surface.Implements client →
      (f surface).Implements (f client)) : model.AddsClients table groups served' := by
  obtain ⟨kept, surfaces, http, clients, beans, hserved, hkept, hoffered, hclients,
      hhttp, hbeans⟩ := h
  have hcategory : ∀ d, (f d).category = d.category := by
    intro d
    rw [← d.frame_category, ← hframe, DataDeclaration.frame_category]
  refine ⟨kept.map f, surfaces.map f, f http, clients.map f, beans.map f, ?_, ?_, ?_, ?_, ?_, ?_⟩
  · rw [hdata, hserved, List.map_append, List.map_append, List.map_append, List.map_cons]
  · rw [← hkept, List.map_map]
    exact List.map_congr_left fun d _ => hframe d
  · rw [List.forall₂_map_right_iff]
    refine hoffered.imp fun group d hd => ⟨?_, (hlength d).trans hd.length⟩
    rw [hd.issued, ← d.frame_symbol, ← hframe, DataDeclaration.frame_symbol]
  · rw [List.forall₂_map_left_iff, List.forall₂_map_right_iff]
    exact hclients.imp himplements
  · rw [hcategory, hhttp]
  · rw [List.forall_mem_map]
    intro b hb
    rw [hcategory, hbeans b hb]

/-- Representing services rewrites a surface and its client alike. -/
theorem AddsClients.represent {settings : Settings} {beans : List Symbol}
    (h : model.AddsClients table groups served)
    (hrepresented : ServicesRepresented table settings beans served served') :
    model.AddsClients table groups served' := by
  refine h.map hrepresented.data_eq (fun d => ?_) (fun d => ?_) fun surface client himplements => ?_
  · split
    · exact d.frame_mapTypes _
    · rfl
  · split
    · exact List.length_map _
    · rfl
  · have hsurface : isNew beans surface = true := isNew_of_category (by
      rw [himplements.surface_category]; exact nofun)
    have hclient : isNew beans client = true := isNew_of_category (by
      rw [himplements.category]; exact nofun)
    rw [if_pos hsurface, if_pos hclient]
    exact himplements.mapTypes _

/-- Copy functions stand in the code of clients, which surfaces do not have. -/
theorem AddsClients.withCopyFunctions (h : model.AddsClients table groups served)
    (response : Symbol) : model.AddsClients table groups (served.withCopyFunctions response) := by
  refine h.map rfl (fun d => ?_) (fun d => ?_) fun surface client himplements => ?_
  · split <;> rfl
  · split
    · exact List.length_map _
    · rfl
  · have hclient : (client.isClass && client.category == .service) = true := by
      rw [himplements.isClass, himplements.category]
      rfl
    rw [himplements.surface_isClass, Bool.false_and, if_neg Bool.false_ne_true, if_pos hclient]
    refine { himplements with methods := ?_ }
    rw [List.forall₂_map_right_iff]
    exact himplements.methods.imp fun _ _ hmethod => hmethod.addCopyFunction served response

theorem yields_withServices_both {lo hi : SymbolTable} {settings : Settings}
    (hmode : settings.restCodegen = .both) (application : Application) (mapper : Mapper) :
    Work.Yields lo hi (model.withServices application settings mapper)
      (model.AddsClients hi (application.groups settings.restGrouping)) := by
  unfold withServices
  rw [if_neg (by rw [hmode]; exact nofun)]
  refine .bind (yields_syntheticSymbol "RestResponse") fun response =>
    .bind (Service.yields_extend_both hmode model) fun ⟨extended, beans⟩ =>
      .bind (yields_representServices beans) fun represented =>
        .pure fun hrepresented hextended _ => ?_
  have hadds := hextended.represent hrepresented
  split
  · exact hadds.withCopyFunctions response
  · exact hadds

/-- Where an application gets surfaces and clients, there is one of each for every group, and the
client implements the surface, whatever was issued before. -/
theorem addsClients_withServices (model : Model) (application : Application) (settings : Settings)
    (mapper : Mapper) (session : Session) (hmode : settings.restCodegen = .both) :
    model.AddsClients ((model.withServices application settings mapper).run session).2.symbols
      (application.groups settings.restGrouping)
      ((model.withServices application settings mapper).run session).1 :=
  (yields_withServices_both hmode application mapper).holds (le_refl _) (le_refl _)

end Model

/-- Two endpoints of one name with the same query bean, of which one returns content. -/
def orderApplication : Application where
  methods :=
    [{ name := "find", httpMethod := "GET", path := "orders/{id}", resource := "Orders"
       pathParams := [{ name := "id", type := .named "Number" [] }]
       queryParams := [.bean { name := "Paging" }]
       returnType := some (.named "Order" []) },
      { name := "find", httpMethod := "GET", path := "orders", resource := "Orders"
        queryParams := [.bean { name := "Paging" }] }]

/-- Settings for surfaces and for clients that revive what they receive. -/
def orderSettings : Settings where
  classMapping := .asClasses
  deserializationFunctions := true
  restCodegen := .both
  restGrouping := .perResource

/-- The model of an empty graph with the services of `orderApplication`. -/
def orderModel : Model :=
  ((Model.withServices orderApplication orderSettings (.builtIn orderSettings {}) {}).run {}).1

theorem addsClients_orders : orderSettings.restCodegen = .both ∧
    ∃ surface ∈ orderModel.data, ∃ client ∈ orderModel.data, surface.Implements client ∧
      surface.methods.length = 2 := by
  refine ⟨rfl, ?_⟩
  obtain ⟨_, surfaces, _, clients, _, hdata, -, hoffered, himplements, -⟩ :=
    Model.addsClients_withServices {} orderApplication orderSettings
      (.builtIn orderSettings {}) {} rfl
  have hgroups : (orderApplication.groups .perResource).map (·.endpoints.length) = [2] := by
    simp [Application.groups_eq, Application.groupKey, orderApplication, List.eraseDups_cons]
  obtain ⟨group, hgroup, hlength⟩ := List.map_eq_singleton_iff.mp hgroups
  rw [show orderSettings.restGrouping = .perResource from rfl, hgroup] at hoffered
  obtain ⟨surface, _, hsurface, hnil, rfl⟩ := List.forall₂_cons_left_iff.mp hoffered
  obtain ⟨client, _, hclient, -, rfl⟩ := List.forall₂_cons_left_iff.mp himplements
  refine ⟨surface, ?_, client, ?_, hclient, hsurface.length.trans hlength⟩
  · rw [orderModel, hdata]
    simp
  · rw [orderModel, hdata]
    simp

end Typings
