import Typings.Proofs.ServiceClients
import Typings.Proofs.ServiceTypes

/-!
# What the methods of services keep

After the endpoints of an application are compiled, the types in their methods are represented as in
the rest of the model, and clients get copy functions. What methods and their parameters are called
and which addresses are requested does not depend on types, so it stays as the endpoints have it.

## Main definitions

* `Method.addressValues`: what a method substitutes in the addresses that it requests.
* `Endpoint.pathNames`, `Endpoint.parameterNames`: the parameters in the path of an endpoint, and
  the names of the parameters of its method.
* `Service.Offers`, `Service.Serves`: a method and a declaration keep what their endpoints say.
* `Model.AddsRoles`: a model is another one with declarations for the roles of an application.

## Main results

* `Model.yields_withServices_roles`: what holds of declarations of services holds in the model.
* `Model.addsServices_withServices`: the declarations of services in a model keep to their
  endpoints.
-/

namespace Typings

open Work (yields_symbol yields_syntheticSymbol)

/-! ## Addresses -/

/-- What an expression substitutes in an address, if it is one itself. -/
def Expression.ownAddressValues : Expression → List Expression
  | template tag parts => if tag.name? = some "uriEncoding" then parts.filterMap (·.value?) else []
  | _ => []

/-- What an expression substitutes in the addresses in it. -/
def Expression.addressValues (e : Expression) : List Expression :=
  e.nodes.flatMap (·.ownAddressValues)

/-- What a method substitutes in the addresses in its code. -/
def Method.addressValues (m : Method) : List Expression :=
  m.codeNodes.flatMap (·.ownAddressValues)

theorem Expression.addressValues_eq (e : Expression) :
    e.addressValues = e.ownAddressValues ++ e.parts.flatMap addressValues := by
  rw [addressValues, nodes_eq, List.flatMap_cons, List.flatMap_assoc]
  rfl

/-- An expression that applies other functions only has no addresses in it. -/
theorem Expression.addressValues_eq_nil {voc : CodeVocabulary} {e : Expression} (h : e.Within voc)
    (hvoc : ¬voc.callable "uriEncoding") : e.addressValues = [] := by
  rw [addressValues, List.flatMap_eq_nil_iff]
  intro n hn
  unfold ownAddressValues
  split
  case h_1 tag parts =>
    refine if_neg fun htag => hvoc ((h _ hn).called _ ?_)
    exact htag
  case h_2 => rfl

theorem Method.addressValues_of_body {m : Method} {value : Expression}
    (h : m.body = some [.returns (some value)]) : m.addressValues = value.addressValues := by
  rw [addressValues, codeNodes, h]
  simp [Typings.codeNodes, Statement.expressions, Expression.addressValues]

theorem addressValues_call_object (callee : Expression) (types : List TypeExpr)
    (entries : List (String × Option Expression)) (args : List Expression) :
    (Expression.call callee types (.object entries :: args)).addressValues =
      callee.addressValues ++ ((entries.filterMap (·.2)).flatMap (·.addressValues) ++
        args.flatMap (·.addressValues)) := by
  rw [Expression.addressValues_eq]
  simp only [Expression.parts, Expression.ownAddressValues, List.nil_append, List.flatMap_cons]
  rw [Expression.addressValues_eq (.object entries)]
  rfl

/-- The code that copies values calls the helpers for that and constructors, and no other
function. -/
theorem addressValues_contentCopy (model : Model) (content : TypeExpr) :
    (model.contentCopy content).addressValues = [] := by
  have htypes : ∀ t : TypeExpr, t.Within {} := by
    intro t n _
    cases n <;> trivial
  have hconstructor : ∀ v, constructorName v ≠ "uriEncoding" := by
    intro v heq
    have hfirst := congrArg (·.toList.head?) heq
    simp [constructorName] at hfirst
  have hrevives : model.Revives ⟨{}, (· ≠ "uriEncoding")⟩ :=
    { symbol := fun _ _ _ => trivial
      var := fun _ => trivial
      helper := by decide
      parameter := hconstructor }
  exact Expression.addressValues_eq_nil (Model.within_contentCopy hrevives (htypes content))
    fun hcallable => hcallable rfl

theorem Method.addressValues_addCopyFunction (model : Model) (response : Symbol) (m : Method) :
    (model.addCopyFunction response m).addressValues = m.addressValues := by
  unfold Model.addCopyFunction
  split
  case h_1 symbol content callee types entries args hresult hbody =>
    split
    · rw [addressValues_of_body hbody, addressValues_of_body rfl, addressValues_call_object,
        addressValues_call_object]
      congr 2
      conv_rhs => rw [← List.takeWhile_append_dropWhile (p := (·.1 != "options")) (l := entries)]
      simp only [Model.insertCopyFunction, List.filterMap_append, List.flatMap_append,
        List.filterMap_cons, List.flatMap_cons, addressValues_contentCopy, List.nil_append]
    · rfl
  case h_2 => rfl

/-! ## Endpoints and their methods -/

def PathPart.parameter? : PathPart → Option String
  | literal _ => none
  | parameter name _ => some name

/-- The names of the parameters in the path of an endpoint, below another path. -/
def Endpoint.pathNames (base : Option String) (endpoint : Endpoint) : List String :=
  (PathTemplate.parse (joinPaths base endpoint.path)).parts.filterMap (·.parameter?)

def Endpoint.parameterNames (settings : Settings) (endpoint : Endpoint) : List String :=
  (endpoint.pathParams.map fun param => Identifier.repair param.name) ++
    endpoint.entity.toList.map (·.name) ++
    (if endpoint.queryParams.isEmpty then [] else ["queryParams"]) ++
    settings.restOptionsType.toList.map fun _ => "options"

/-- What the method of an endpoint substitutes in the address that it requests. -/
def Endpoint.pathValues (base : Option String) (endpoint : Endpoint) : List Expression :=
  (endpoint.pathNames base).map fun name => .identifier (Identifier.repair name)

namespace Service

section Offered

variable (service : Service)

/-- Whether a method is called as its endpoint says, in a group, and requests its address, in a
client. -/
structure Offers (client : Bool) (group : EndpointGroup) (endpoint : Endpoint) (m : Method) :
    Prop where
  name : m.name = service.methodName endpoint (group.shares endpoint)
  parameters : m.parameters.map (·.name) = endpoint.parameterNames service.settings
  addressValues : m.addressValues =
    if client then endpoint.pathValues service.application.path else []

/-- Whether a declaration has the methods of a group, in a client or in a surface. -/
structure Serves (client : Bool) (group : EndpointGroup) (d : DataDeclaration) : Prop where
  category : d.category = .service
  isClass : d.isClass = client
  methods : List.Forall₂ (service.Offers client group) group.endpoints d.methods

/-- Whether a declaration has what its role asks for. -/
def ServesRole : Role → DataDeclaration → Prop
  | .surface group, d => service.Serves false group d
  | .httpClient, d => d.category = .servicePrerequisite
  | .client group, d => service.Serves true group d

end Offered

variable {service : Service} {lo hi : SymbolTable} {final : List DataDeclaration}
  {client : Bool} {group : EndpointGroup} {endpoint : Endpoint} {m : Method} {d : DataDeclaration}

theorem names_parametersImage (service : Service) (table : SymbolTable) (endpoint : Endpoint) :
    (service.parametersImage table endpoint).map (·.name) =
      endpoint.parameterNames service.settings := by
  have hquery : (service.queryImage table endpoint).map (·.name) =
      if endpoint.queryParams.isEmpty then [] else ["queryParams"] := by
    unfold queryImage
    split <;> rfl
  have hoptions : service.optionsParameters.map (·.name) =
      service.settings.restOptionsType.toList.map fun _ => "options" := by
    unfold optionsParameters optionsType?
    cases service.settings.restOptionsType <;> rfl
  rw [parametersImage, List.map_append, List.map_append, hquery, hoptions, valuesImage,
    List.map_append, List.map_map, List.map_map]
  rfl

theorem addressValues_address (service : Service) (endpoint : Endpoint) :
    (service.address endpoint).addressValues = endpoint.pathValues service.application.path := by
  have hidentifier : ∀ name, (Expression.identifier name).addressValues = [] := fun _ => rfl
  have hparts : ∀ parts : List PathPart, (parts.map addressPart).filterMap (·.value?) =
      (parts.filterMap (·.parameter?)).map fun name => .identifier (Identifier.repair name) := by
    intro parts
    rw [List.filterMap_map, List.map_filterMap]
    refine List.filterMap_congr fun part _ => ?_
    cases part <;> rfl
  rw [address, Expression.addressValues_eq]
  simp only [Expression.ownAddressValues, Expression.parts, Expression.name?, if_pos, hparts]
  rw [List.flatMap_cons, hidentifier, List.nil_append, List.flatMap_map]
  simp [hidentifier, Endpoint.pathValues, Endpoint.pathNames, pathOf]

/-- The only address in the code of a client is that of the request. -/
theorem addressValues_clientBody (h : m.body = some (service.clientBody endpoint)) :
    m.addressValues = endpoint.pathValues service.application.path := by
  have hidentifier : ∀ name, (Expression.identifier name).addressValues = [] := fun _ => rfl
  have htext : ∀ text, (Expression.text text).addressValues = [] := fun _ => rfl
  have hcallee : (Expression.member (.member .self "httpClient") "request").addressValues =
      [] := rfl
  have hentries : ((service.requestEntries endpoint).filterMap (·.2)).flatMap (·.addressValues) =
      (service.address endpoint).addressValues := by
    simp only [requestEntries, List.filterMap_append, List.flatMap_append]
    have hquery : ((if endpoint.queryParams.isEmpty then []
        else [("queryParams", some (Expression.identifier "queryParams"))]).filterMap
          (·.2)).flatMap (·.addressValues) = [] := by
      split <;> rfl
    have hdata : ((endpoint.entity.toList.map fun entity =>
        ("data", some (Expression.identifier entity.name))).filterMap (·.2)).flatMap
          (·.addressValues) = [] := by
      cases endpoint.entity <;> rfl
    have hoptions : ((if service.optionsType?.isSome then
        [("options", some (Expression.identifier "options"))] else []).filterMap (·.2)).flatMap
          (·.addressValues) = [] := by
      split <;> rfl
    rw [hquery, hdata, hoptions]
    simp [htext]
  rw [Method.addressValues_of_body h, Expression.apply, addressValues_call_object, hcallee,
    hentries, addressValues_address]
  simp

theorem offers_methodImage (service : Service) (table : SymbolTable) (client : Bool)
    (group : EndpointGroup) (endpoint : Endpoint) :
    service.Offers client group endpoint (service.methodImage table client group endpoint) where
  name := rfl
  parameters := service.names_parametersImage table endpoint
  addressValues := by
    cases client with
    | false => rfl
    | true => exact addressValues_clientBody rfl

theorem Offers.addCopyFunction (h : service.Offers client group endpoint m) (model : Model)
    (response : Symbol) :
    service.Offers client group endpoint (model.addCopyFunction response m) where
  name := by
    rw [Model.addCopyFunction_eq]
    exact h.name
  parameters := by
    rw [Model.addCopyFunction_eq]
    exact h.parameters
  addressValues := by rw [Method.addressValues_addCopyFunction, h.addressValues]

theorem Serves.mapTypes (h : service.Serves client group d) (f : TypeExpr → TypeExpr) :
    service.Serves client group (d.mapTypes f) where
  category := h.category
  isClass := h.isClass
  methods := by
    rw [DataDeclaration.mapTypes, List.forall₂_map_right_iff]
    refine h.methods.imp fun endpoint m hm => ⟨hm.name, ?_, hm.addressValues⟩
    rw [← hm.parameters, List.map_map]
    rfl

theorem Serves.mapMethods (h : service.Serves client group d) {f : Method → Method}
    (hf : ∀ endpoint m, service.Offers client group endpoint m →
      service.Offers client group endpoint (f m)) :
    service.Serves client group { d with methods := d.methods.map f } where
  category := h.category
  isClass := h.isClass
  methods := by
    rw [List.forall₂_map_right_iff]
    exact h.methods.imp hf

theorem serves_methodsImage {symbol : Symbol} {typeParameters : List String}
    {interfaces : List TypeExpr} {ctor : Option Constructor} {table : SymbolTable} :
    service.Serves client group
      { symbol, category := .service, isClass := client, typeParameters, interfaces, ctor
        methods := service.methodsImage table client group } where
  category := rfl
  isClass := rfl
  methods := by
    rw [methodsImage, List.forall₂_map_right_iff, List.forall₂_same]
    exact fun endpoint _ => service.offers_methodImage table client group endpoint

/-! ## Declarations by their roles -/

/-- What holds of every surface, of what clients send requests with and of every client holds of the
declarations of services, whichever of them are wanted. -/
theorem yields_declarations_of {P : Role → DataDeclaration → Prop}
    (hsurface : ∀ group ∈ service.groups, ServiceWork.Yields lo hi (service.AreBeans hi) final
      (service.surface group) (P (.surface group)))
    (hhttp : Work.Yields lo hi service.httpClient (P .httpClient))
    (hclient : ∀ symbol, ∀ group ∈ service.groups, ServiceWork.Yields lo hi (service.AreBeans hi)
      final (service.client symbol group) (P (.client group))) :
    ServiceWork.Yields lo hi (service.AreBeans hi) final (service.declarations service.groups)
      (List.Forall₂ P service.roles) := by
  have hsurfaces : ServiceWork.Yields lo hi (service.AreBeans hi) final
      (service.surfaces service.groups)
      (List.Forall₂ P (if service.settings.restCodegen.surface then service.groups.map .surface
        else [])) := by
    unfold surfaces
    split
    · exact (ServiceWork.Yields.mapM hsurface).mono fun _ h => List.forall₂_map_left_iff.mpr h
    · exact .pure .nil
  have hclients : ServiceWork.Yields lo hi (service.AreBeans hi) final
      (service.clients service.groups)
      (List.Forall₂ P (if service.settings.restCodegen.client then
        .httpClient :: service.groups.map .client else [])) := by
    unfold clients
    split
    · exact .bind (.lift hhttp) fun http => .bind (.mapM (hclient http.symbol)) fun _ =>
        .pure fun h hhttp => .cons hhttp (List.forall₂_map_left_iff.mpr h)
    · exact .pure .nil
  exact .bind hsurfaces fun _ => .bind hclients fun _ => .pure fun h h' => List.rel_append h' h

theorem yields_servesRole :
    ServiceWork.Yields lo hi (service.AreBeans hi) final (service.declarations service.groups)
      (List.Forall₂ service.ServesRole service.roles) := by
  refine yields_declarations_of (fun group hgroup => ?_) ?_ fun symbol group hgroup => ?_
  · refine .bind (.lift (yields_symbol _)) fun _ =>
      .bind (yields_methodsImage false hgroup) fun _ => .pure ?_
    rintro rfl -
    exact serves_methodsImage
  · exact .bind (yields_syntheticSymbol _) fun _ => .pure fun _ => rfl
  · refine .bind (.lift (yields_clientSymbol group)) fun _ =>
      .bind (yields_methodsImage true hgroup) fun _ => .pure ?_
    rintro rfl -
    exact serves_methodsImage

theorem ServesRole.mapTypes {role : Role} (h : service.ServesRole role d)
    (f : TypeExpr → TypeExpr) : service.ServesRole role (d.mapTypes f) := by
  cases role with
  | surface group | client group => exact Serves.mapTypes h f
  | httpClient => exact h

theorem ServesRole.addCopyFunctions {role : Role} (h : service.ServesRole role d) (model : Model)
    (response : Symbol) :
    service.ServesRole role
      { d with methods := d.methods.map (model.addCopyFunction response) } := by
  cases role with
  | surface group | client group =>
    exact Serves.mapMethods h fun _ _ hm => hm.addCopyFunction model response
  | httpClient => exact h

end Service

namespace Model

/-- Whether a model is another one, rewritten or not, followed by declarations that have what their
roles ask for, and by query beans. -/
def AddsRoles (P : Service.Role → DataDeclaration → Prop) (roles : List Service.Role)
    (model served : Model) : Prop :=
  ∃ kept declared beans, served.data = kept ++ declared ++ beans ∧
    kept.length = model.data.length ∧ List.Forall₂ P roles declared ∧
    ∀ b ∈ beans, b.category = .data

section Roles

variable {P : Service.Role → DataDeclaration → Prop} {roles : List Service.Role}
  {model served served' : Model}

theorem AddsRoles.map (h : model.AddsRoles P roles served)
    {f : DataDeclaration → DataDeclaration} (hdata : served'.data = served.data.map f)
    (hcategory : ∀ d, (f d).category = d.category) (hroles : ∀ role d, P role d → P role (f d)) :
    model.AddsRoles P roles served' := by
  obtain ⟨kept, declared, beans, hserved, hlength, hdeclared, hbeans⟩ := h
  refine ⟨kept.map f, declared.map f, beans.map f, ?_, ?_, ?_, ?_⟩
  · rw [hdata, hserved, List.map_append, List.map_append]
  · rw [List.length_map, hlength]
  · rw [List.forall₂_map_right_iff]
    exact hdeclared.imp hroles
  · rw [List.forall_mem_map]
    intro b hb
    rw [hcategory, hbeans b hb]

/-- The declarations that are added for some roles are those that are selected by what they are. -/
theorem AddsRoles.forall₂_filter (h : model.AddsRoles P roles served)
    {R : EndpointGroup → DataDeclaration → Prop} {groupOf : Service.Role → Option EndpointGroup}
    {keep : DataDeclaration → Bool} (hdata : ∀ d, d.category = .data → keep d = false)
    (hnone : ∀ role d, P role d → groupOf role = none → keep d = false)
    (hsome : ∀ role d group, P role d → groupOf role = some group → keep d = true ∧ R group d) :
    List.Forall₂ R (roles.filterMap groupOf)
      ((served.data.drop model.data.length).filter keep) := by
  obtain ⟨kept, declared, beans, hserved, hlength, hroles, hbeans⟩ := h
  have hdropped : served.data.drop model.data.length = declared ++ beans := by
    rw [hserved, List.append_assoc, ← hlength, List.drop_left]
  have hnothing : beans.filter keep = [] := by
    rw [List.filter_eq_nil_iff]
    intro b hb
    rw [hdata b (hbeans b hb)]
    exact Bool.false_ne_true
  rw [hdropped, List.filter_append, hnothing, List.append_nil, ← List.map_id declared]
  exact forall₂_filterMap_filter hroles hnone hsome

end Roles

variable {lo hi : SymbolTable} {service : Service} {model served : Model}

theorem yields_extend_roles {P : Service.Role → DataDeclaration → Prop}
    (hdeclared : ∀ final, ServiceWork.Yields lo hi (service.AreBeans hi) final
      (service.declarations service.groups) (List.Forall₂ P service.roles)) (model : Model) :
    Work.Yields lo hi (service.extend model) fun result =>
      model.AddsRoles P service.roles result.1 := by
  refine (Service.yields_extend_of hdeclared model).mono fun result h => ?_
  obtain ⟨declared, beans, hdata, hroles, hbeans⟩ := h
  exact ⟨model.data, declared, beans, hdata, rfl, hroles, hbeans⟩

/-- Where services are declared, their declarations have what their roles ask for, and so they do
after their types are represented and clients got copy functions, unless one of these takes it
away. -/
theorem yields_withServices_roles {P : Service → Service.Role → DataDeclaration → Prop}
    {application : Application} {settings : Settings} {mapper : Mapper}
    (hmode : settings.restCodegen ≠ .neither)
    (hdeclared : ∀ (service : Service) final, ServiceWork.Yields lo hi (service.AreBeans hi) final
      (service.declarations service.groups) (List.Forall₂ (P service) service.roles))
    (htypes : ∀ service role d f, P service role d → P service role (d.mapTypes f))
    (hcopies : ∀ service role d represented response, P service role d → d.isClass = true →
      P service role { d with methods := d.methods.map (addCopyFunction represented response) }) :
    Work.Yields lo hi (model.withServices application settings mapper) fun served =>
      ∃ response, model.AddsRoles (P { application, settings, mapper, response })
        (application.roles settings) served := by
  unfold withServices
  rw [if_neg hmode]
  refine .bind (yields_syntheticSymbol "RestResponse") fun response =>
    .bind (yields_extend_roles (hdeclared _) model) fun ⟨extended, beans⟩ =>
      .bind (yields_representServices beans) fun represented => .pure ?_
  intro hrepresented hextended _
  have hadds : model.AddsRoles (P { application, settings, mapper, response })
      (application.roles settings) represented := by
    refine hextended.map hrepresented.data_eq (fun d => ?_) fun role d hrole => ?_
    · split <;> rfl
    · split
      · exact htypes _ _ _ _ hrole
      · exact hrole
  refine ⟨response, ?_⟩
  split
  · refine hadds.map rfl (fun d => ?_) fun role d hrole => ?_
    · split <;> rfl
    · split
      case isTrue hclass => exact hcopies _ _ _ _ _ hrole (Bool.and_eq_true_iff.mp hclass).1
      case isFalse => exact hrole
  · exact hadds

/-- Whether a model is another one, rewritten or not, followed by declarations that serve the roles
of an application, and by query beans. -/
def AddsServices (service : Service) (model served : Model) : Prop :=
  ∃ kept declared beans, served.data = kept ++ declared ++ beans ∧
    kept.length = model.data.length ∧ List.Forall₂ service.ServesRole service.roles declared ∧
    ∀ b ∈ beans, b.category = .data

/-- Where services are declared, their declarations keep to the endpoints of the application. -/
theorem addsServices_withServices (model : Model) (application : Application) {settings : Settings}
    (mapper : Mapper) (session : Session) (hmode : settings.restCodegen ≠ .neither) :
    ∃ response, model.AddsServices { application, settings, mapper, response }
      ((model.withServices application settings mapper).run session).1 :=
  (yields_withServices_roles hmode (fun _ _ => Service.yields_servesRole)
    (fun _ _ _ f hrole => hrole.mapTypes f)
    fun _ _ _ represented response hrole _ => hrole.addCopyFunctions represented response).holds
      (le_refl session.symbols) (le_refl _)

theorem AddsServices.forall₂_filter (h : model.AddsServices service served)
    {R : EndpointGroup → DataDeclaration → Prop} {groupOf : Service.Role → Option EndpointGroup}
    {keep : DataDeclaration → Bool} (hdata : ∀ d, d.category = .data → keep d = false)
    (hnone : ∀ role d, service.ServesRole role d → groupOf role = none → keep d = false)
    (hsome : ∀ role d group, service.ServesRole role d → groupOf role = some group →
      keep d = true ∧ R group d) :
    List.Forall₂ R (service.roles.filterMap groupOf)
      ((served.data.drop model.data.length).filter keep) :=
  AddsRoles.forall₂_filter h hdata hnone hsome

end Model

end Typings
