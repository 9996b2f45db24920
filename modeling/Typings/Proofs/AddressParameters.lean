import Typings.Proofs.Identifier
import Typings.Proofs.Service.Methods

/-!
# Parameters in the addresses of requests

A client method substitutes parameters in the address that it requests. Both the parameters of a
path and those of the method are named after the names in the source, made identifiers apart from
each other. The substituted names are bound, each by one parameter, exactly if this leaves something
of each name and leaves different names apart: from each other, from that of the body, and from the
two fixed names for the query and for options.

## Main definitions

* `Method.Binds`: a substituted value is a valid identifier and the name of one parameter.
* `Endpoint.Separates`: a name in a path becomes the name of one parameter.
* `Endpoint.AddressedBy`: a method substitutes the names in the path of its endpoint, and when these
  are bound.

## Main results

* `Endpoint.count_parameterNames_eq_one_iff`: when one parameter has the name that a name becomes.
* `Model.addressedBy_withServices`: the methods of clients, whatever the model and the settings are.
-/

namespace Typings

/-! ## Bound names -/

/-- Whether a value is a valid identifier and the name of exactly one parameter of a method. -/
def Method.Binds (m : Method) (value : Expression) : Prop :=
  ∃ name, value = .identifier name ∧ Identifier.isValid name = true ∧
    m.parameters.countP (·.name == name) = 1

namespace Endpoint

/-- Whether a name in the path of an endpoint becomes the name of exactly one parameter. -/
structure Separates (settings : Settings) (endpoint : Endpoint) (name : String) : Prop where
  repair_ne : Identifier.repair name ≠ ""
  path : endpoint.pathParams.countP (Identifier.repair ·.name == Identifier.repair name) = 1
  entity : ∀ entity ∈ endpoint.entity, entity.name ≠ Identifier.repair name
  query : Identifier.repair name = "queryParams" → endpoint.queryParams = []
  options : Identifier.repair name = "options" → settings.restOptionsType = none

/-- Whether a method substitutes the names in the path of an endpoint, made identifiers. If all
these names are listed, they are bound if and only if each becomes the name of exactly one
parameter. -/
structure AddressedBy (base : Option String) (settings : Settings) (endpoint : Endpoint)
    (m : Method) : Prop where
  addressValues_eq : m.addressValues =
    (endpoint.pathNames base).map fun name => .identifier (Identifier.repair name)
  binds_iff : endpoint.pathNames base ⊆ endpoint.pathParams.map (·.name) →
    ((∀ value ∈ m.addressValues, m.Binds value) ↔
      ∀ name ∈ endpoint.pathNames base, endpoint.Separates settings name)

variable {settings : Settings} {endpoint : Endpoint} {name : String}

/-- A listed name becomes the name of one parameter exactly if no other parameter gets that name. -/
theorem count_parameterNames_eq_one_iff (hlisted : name ∈ endpoint.pathParams.map (·.name)) :
    (endpoint.parameterNames settings).count (Identifier.repair name) = 1 ↔
      endpoint.pathParams.countP (Identifier.repair ·.name == Identifier.repair name) = 1 ∧
      (∀ entity ∈ endpoint.entity, entity.name ≠ Identifier.repair name) ∧
      (Identifier.repair name = "queryParams" → endpoint.queryParams = []) ∧
      (Identifier.repair name = "options" → settings.restOptionsType = none) := by
  have hpath : (endpoint.pathParams.map fun param => Identifier.repair param.name).count
      (Identifier.repair name) =
        endpoint.pathParams.countP (Identifier.repair ·.name == Identifier.repair name) := by
    rw [List.count, List.countP_map]
    rfl
  have hpositive :
      0 < endpoint.pathParams.countP (Identifier.repair ·.name == Identifier.repair name) := by
    obtain ⟨param, hparam, rfl⟩ := List.mem_map.mp hlisted
    exact List.countP_pos_iff.mpr ⟨param, hparam, beq_self_eq_true _⟩
  have hentity : (endpoint.entity.toList.map (·.name)).count (Identifier.repair name) = 0 ↔
      ∀ entity ∈ endpoint.entity, entity.name ≠ Identifier.repair name := by
    rw [List.count_eq_zero]
    simp
  have hquery : (if endpoint.queryParams.isEmpty then [] else ["queryParams"]).count
      (Identifier.repair name) = 0 ↔
        (Identifier.repair name = "queryParams" → endpoint.queryParams = []) := by
    rw [List.count_eq_zero]
    split
    case isTrue hnone => simp [List.isEmpty_iff.mp hnone]
    case isFalse hsome => simp [mt List.isEmpty_iff.mpr hsome]
  have hoptions : (settings.restOptionsType.toList.map fun _ => "options").count
      (Identifier.repair name) = 0 ↔
        (Identifier.repair name = "options" → settings.restOptionsType = none) := by
    rw [List.count_eq_zero]
    cases settings.restOptionsType <;> simp
  rw [← hentity, ← hquery, ← hoptions, parameterNames, List.count_append, List.count_append,
    List.count_append, hpath]
  omega

/-- A listed name is bound exactly if it becomes the name of one parameter. -/
theorem binds_iff_separates {m : Method}
    (hparameters : m.parameters.map (·.name) = endpoint.parameterNames settings)
    (hlisted : name ∈ endpoint.pathParams.map (·.name)) :
    m.Binds (.identifier (Identifier.repair name)) ↔ endpoint.Separates settings name := by
  have hcount : m.parameters.countP (·.name == Identifier.repair name) =
      (endpoint.parameterNames settings).count (Identifier.repair name) := by
    rw [← hparameters, List.count, List.countP_map]
    rfl
  constructor
  · rintro ⟨repaired, heq, hvalid, hone⟩
    obtain rfl := Expression.identifier.inj heq
    obtain ⟨hpath, hentity, hquery, hoptions⟩ :=
      (count_parameterNames_eq_one_iff hlisted).mp (hcount ▸ hone)
    exact ⟨(Identifier.isValid_repair_iff name).mp hvalid, hpath, hentity, hquery, hoptions⟩
  · rintro ⟨hne, hpath, hentity, hquery, hoptions⟩
    refine ⟨_, rfl, (Identifier.isValid_repair_iff name).mpr hne, hcount.trans ?_⟩
    exact (count_parameterNames_eq_one_iff hlisted).mpr ⟨hpath, hentity, hquery, hoptions⟩

end Endpoint

namespace Service

variable {service : Service} {group : EndpointGroup} {endpoint : Endpoint} {m : Method}

theorem Offers.addressedBy (h : service.Offers true group endpoint m) :
    endpoint.AddressedBy service.application.path service.settings m where
  addressValues_eq := h.addressValues
  binds_iff hlisted := by
    rw [h.addressValues, if_pos rfl, Endpoint.pathValues, List.forall_mem_map]
    exact forall₂_congr fun name hname =>
      Endpoint.binds_iff_separates h.parameters (hlisted hname)

def Role.clientGroup? : Role → Option EndpointGroup
  | client group => some group
  | surface _ | httpClient => none

theorem filterMap_clientGroup?_roles (application : Application) {settings : Settings}
    (h : settings.restCodegen.client = true) :
    (application.roles settings).filterMap Role.clientGroup? =
      application.groups settings.restGrouping := by
  have hsurfaces : ((if settings.restCodegen.surface then
      (application.groups settings.restGrouping).map Role.surface else []).filterMap
        Role.clientGroup?) = [] := by
    split
    · rw [List.filterMap_map, List.filterMap_eq_nil_iff]
      exact fun _ _ => rfl
    · rfl
  rw [Application.roles, List.filterMap_append, hsurfaces, List.nil_append, if_pos h,
    List.filterMap_cons, List.filterMap_map]
  exact List.filterMap_some

end Service

/-- Where clients are declared, the methods of each substitute the names in the paths of its
endpoints, and where these are listed, it is known when each of them is bound by one parameter. -/
theorem Model.addressedBy_withServices (model : Model) (application : Application)
    (settings : Settings) (mapper : Mapper) (session : Session)
    (hclient : settings.restCodegen.client = true) :
    List.Forall₂ (fun group d =>
        List.Forall₂ (Endpoint.AddressedBy application.path settings) group.endpoints d.methods)
      (application.groups settings.restGrouping)
      ((((model.withServices application settings mapper).run session).1.data.drop
        model.data.length).filter fun d => d.isClass && d.category == .service) := by
  have hmode : settings.restCodegen ≠ .neither := by
    intro hnone
    rw [hnone] at hclient
    cases hclient
  obtain ⟨response, hadds⟩ := model.addsServices_withServices application mapper session hmode
  rw [← Service.filterMap_clientGroup?_roles application hclient]
  refine hadds.forall₂_filter (fun d hd => by rw [hd]; simp) ?_ ?_
  · intro role d hserves hgroup
    cases role with
    | surface group =>
      have hserves : Service.Serves _ false group d := hserves
      rw [hserves.isClass, Bool.false_and]
    | httpClient =>
      have hcategory : d.category = .servicePrerequisite := hserves
      rw [hcategory]
      simp
    | client group => cases hgroup
  · intro role d group hserves hgroup
    cases role with
    | surface _ | httpClient => cases hgroup
    | client group' =>
      obtain rfl := Option.some.inj hgroup
      have hserves : Service.Serves _ true _ d := hserves
      refine ⟨?_, hserves.methods.imp fun endpoint m hm => hm.addressedBy⟩
      rw [hserves.isClass, hserves.category]
      rfl

/-- An endpoint whose path has a parameter that is named by a number. -/
def numberedEndpoint : Endpoint where
  name := "get"
  httpMethod := "GET"
  path := "people/{1}"
  resource := "People"
  pathParams := [⟨"1", .named "int" []⟩]

/-- An application with this endpoint only. -/
def numberedApplication : Application where
  methods := [numberedEndpoint]

def clientSettings : Settings where
  restCodegen := .clientOnly

/-- Nothing is left of the name, and what the method of the client substitutes is not bound. -/
theorem addressedBy_numbered : clientSettings.restCodegen.client = true ∧
    numberedEndpoint.pathNames numberedApplication.path = ["1"] ∧
    ∃ d m, ((Model.withServices numberedApplication clientSettings (.builtIn clientSettings {})
        {}).run {}).1.data.filter (fun d => d.isClass && d.category == .service) = [d] ∧
      d.methods = [m] ∧ m.addressValues = [.identifier ""] ∧ ¬m.Binds (.identifier "") := by
  have hclient : clientSettings.restCodegen.client = true := by decide
  have hnames : numberedEndpoint.pathNames numberedApplication.path = ["1"] := by decide +kernel
  have hrepair : Identifier.repair "1" = "" := by decide +kernel
  have hgroups : numberedApplication.groups clientSettings.restGrouping =
      [⟨.named "RestApplication", [numberedEndpoint]⟩] :=
    congrArg (fun endpoints => [EndpointGroup.mk (.named "RestApplication") endpoints])
      (List.mergeSort_singleton numberedEndpoint)
  have haddressed := Model.addressedBy_withServices {} numberedApplication clientSettings
    (.builtIn clientSettings {}) {} hclient
  rw [hgroups, List.forall₂_cons_left_iff] at haddressed
  obtain ⟨d, rest, hmethods, hrest, hdata⟩ := haddressed
  obtain rfl := List.forall₂_nil_left_iff.mp hrest
  obtain ⟨m, rest, hm, hrest, hd⟩ := List.forall₂_cons_left_iff.mp hmethods
  obtain rfl := List.forall₂_nil_left_iff.mp hrest
  have hvalues : m.addressValues = [.identifier ""] := by
    rw [hm.addressValues_eq, hnames, ← hrepair]
    rfl
  refine ⟨hclient, hnames, d, m, hdata, hd, hvalues, fun hbinds => ?_⟩
  have hlisted : numberedEndpoint.pathNames numberedApplication.path ⊆
      numberedEndpoint.pathParams.map (·.name) := by
    rw [hnames]
    exact List.Subset.refl _
  have hseparates := (hm.binds_iff hlisted).mp (by
    rw [hvalues]
    simpa using hbinds)
  exact (hseparates "1" (by rw [hnames]; simp)).repair_ne hrepair

end Typings
