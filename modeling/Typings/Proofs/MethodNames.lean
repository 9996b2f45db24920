import Typings.Proofs.Service.Methods

/-!
# Names of methods in a group

Endpoints of a group that share their name get methods which are named with verb and path as well.
Of a path only its trace enters the name: slashes become underscores, other characters than ASCII
letters, digits and underscores are lost, and so are the braces around parameters. Endpoints that
differ in verb or path have methods of one name exactly if they are confused: their paths leave the
same trace, or one of them bears the longer name of the other one from the start.

## Main definitions

* `PathTemplate.trace`: what a path leaves in the name of a method.
* `EndpointGroup.Confuses`: two endpoints of a group get one name.
* `EndpointGroup.NamesMethods`: methods bear one name if and only if their endpoints are confused.

## Main results

* `PathTemplate.toList_nameSuffix`: the end of a name is the trace of the path.
* `Service.methodName_eq_iff`: when two endpoints get one name.
* `Model.namesMethods_withServices`: the methods of services, whatever the model and the settings
  are.
-/

namespace Typings

/-! ## Traces -/

/-- What a character leaves in the name of a method. -/
def traceChar? (c : Char) : Option Char :=
  if c = '/' then some '_' else if c.isAlphanum || c = '_' then some c else none

/-- What a part of a path leaves in the name of a method. -/
def PathPart.trace : PathPart → List Char
  | literal text => text.toList.filterMap traceChar?
  | parameter name _ => (Identifier.repair name).toList.filterMap traceChar?

namespace PathTemplate

/-- What a path leaves in the name of a method. -/
def trace (template : PathTemplate) : List Char :=
  template.parts.flatMap (·.trace)

theorem toList_nameSuffix (template : PathTemplate) :
    template.nameSuffix.toList = template.trace := by
  have hchar : ∀ cs : List Char, ((cs.map fun c => if c = '/' then '_' else c).filter
      fun c => c.isAlphanum || c = '_') = cs.filterMap traceChar? := by
    intro cs
    rw [← List.filterMap_eq_filter, List.filterMap_map]
    refine List.filterMap_congr fun c _ => ?_
    by_cases hslash : c = '/'
    · rw [hslash]
      rfl
    · simp [traceChar?, hslash, Option.guard]
  have hpart : ∀ part : PathPart,
      (formatPart "" "" false part).toList.filterMap traceChar? = part.trace := by
    intro part
    cases part <;> simp [formatPart, PathPart.trace]
  rw [nameSuffix, String.toList_ofList, hchar, format, String.toList_join, List.filterMap_flatMap,
    List.flatMap_map, trace]
  exact List.flatMap_congr fun part _ => hpart part

theorem dollar_notMem_trace (template : PathTemplate) : '$' ∉ template.trace := by
  have hchar : ∀ cs : List Char, '$' ∉ cs.filterMap traceChar? := by
    intro cs hmem
    obtain ⟨c, -, hc⟩ := List.mem_filterMap.mp hmem
    unfold traceChar? at hc
    split at hc
    · exact absurd hc (by decide)
    · split at hc
      case isTrue hkept =>
        obtain rfl := Option.some.inj hc
        exact absurd hkept (by decide)
      case isFalse => cases hc
  intro hmem
  obtain ⟨part, -, hpart⟩ := List.mem_flatMap.mp hmem
  cases part with
  | literal text => exact hchar _ hpart
  | parameter name pattern => exact hchar _ hpart

end PathTemplate

/-- Where a value does not come again, it divides a list in one way. -/
theorem append_cons_inj_of_notMem_right {α : Type} {a : α} {as bs cs ds : List α}
    (h : as ++ a :: bs = cs ++ a :: ds) (hbs : a ∉ bs) (hds : a ∉ ds) : as = cs ∧ bs = ds := by
  rcases List.append_eq_append_iff.mp h with ⟨mid, rfl, hmid⟩ | ⟨mid, rfl, hmid⟩
  · rcases mid with - | ⟨b, mid⟩
    · exact ⟨(List.append_nil as).symm, (List.cons.inj hmid).2⟩
    · refine absurd ?_ hbs
      rw [(List.cons.inj hmid).2]
      simp
  · rcases mid with - | ⟨b, mid⟩
    · exact ⟨List.append_nil cs, (List.cons.inj hmid).2.symm⟩
    · refine absurd ?_ hds
      rw [(List.cons.inj hmid).2]
      simp

/-! ## Confused endpoints -/

def Endpoint.verbalName (endpoint : Endpoint) : String :=
  endpoint.name ++ "$" ++ endpoint.httpMethod

/-- The trace of the path of an endpoint, below another path. -/
def Endpoint.trace (base : Option String) (endpoint : Endpoint) : List Char :=
  (PathTemplate.parse (joinPaths base endpoint.path)).trace

namespace EndpointGroup

variable (group : EndpointGroup) (base : Option String)

/-- Whether an endpoint that shares its name with others is given the name that another one has for
itself. -/
def Imitates (e e' : Endpoint) : Prop :=
  group.shares e = true ∧ group.shares e' = false ∧
    e.verbalName ++ "$" ++ String.ofList (e.trace base) = e'.name

/-- Whether endpoints of a group cannot be told apart by the names of their methods. -/
def Confuses (e e' : Endpoint) : Prop :=
  (group.shares e = true ∧ group.shares e' = true ∧ e.verbalName = e'.verbalName ∧
    e.trace base = e'.trace base) ∨ group.Imitates base e e' ∨ group.Imitates base e' e

/-- Whether methods belong to the endpoints of a group, and methods of endpoints that differ in verb
or path bear one name if and only if the endpoints are confused. -/
structure NamesMethods (methods : List Method) : Prop where
  length_eq : methods.length = group.endpoints.length
  name_eq_iff : ∀ x ∈ group.endpoints.zip methods, ∀ y ∈ group.endpoints.zip methods,
    x.1.httpMethod ≠ y.1.httpMethod ∨ x.1.path ≠ y.1.path →
      (x.2.name = y.2.name ↔ group.Confuses base x.1 y.1)

variable {group}

theorem shares_of_ne {e e' : Endpoint} (he : e ∈ group.endpoints) (he' : e' ∈ group.endpoints)
    (hne : e ≠ e') (hname : e.name = e'.name) : group.shares e = true := by
  have hmem : e ∈ group.endpoints.filter (·.name == e.name) :=
    List.mem_filter.mpr ⟨he, beq_self_eq_true _⟩
  have hmem' : e' ∈ group.endpoints.filter (·.name == e.name) :=
    List.mem_filter.mpr ⟨he', beq_iff_eq.mpr hname.symm⟩
  rw [shares, decide_eq_true_iff, List.countP_eq_length_filter]
  by_contra hlength
  rcases hfound : group.endpoints.filter (·.name == e.name) with - | ⟨first, rest⟩
  · rw [hfound] at hmem
    exact absurd hmem List.not_mem_nil
  · have hrest : rest = [] := by
      rw [hfound, List.length_cons] at hlength
      exact List.eq_nil_of_length_eq_zero (by omega)
    rw [hfound, hrest, List.mem_singleton] at hmem hmem'
    exact hne (hmem.trans hmem'.symm)

end EndpointGroup

namespace Service

variable {service : Service} {group : EndpointGroup} {e e' : Endpoint}

theorem methodName_of_shares (e : Endpoint) : service.methodName e true =
    e.verbalName ++ "$" ++ String.ofList (e.trace service.application.path) := by
  rw [methodName, if_pos rfl, Endpoint.verbalName, Endpoint.trace, ← PathTemplate.toList_nameSuffix,
    String.ofList_toList]
  rfl

/-- The last dollar sign of a longer name stands before the trace. -/
theorem methodName_eq_methodName_iff :
    service.methodName e true = service.methodName e' true ↔ e.verbalName = e'.verbalName ∧
      e.trace service.application.path = e'.trace service.application.path := by
  rw [methodName_of_shares, methodName_of_shares]
  constructor
  · intro h
    have hchars := congrArg String.toList h
    simp only [String.toList_append, String.toList_ofList, List.append_assoc] at hchars
    obtain ⟨hname, htrace⟩ := append_cons_inj_of_notMem_right hchars
      (PathTemplate.dollar_notMem_trace _) (PathTemplate.dollar_notMem_trace _)
    exact ⟨String.toList_injective hname, htrace⟩
  · rintro ⟨hname, htrace⟩
    rw [hname, htrace]

/-- Two endpoints of a group get one name exactly if they are confused. -/
theorem methodName_eq_iff (he : e ∈ group.endpoints) (he' : e' ∈ group.endpoints) (hne : e ≠ e') :
    service.methodName e (group.shares e) = service.methodName e' (group.shares e') ↔
      group.Confuses service.application.path e e' := by
  unfold EndpointGroup.Confuses EndpointGroup.Imitates
  have hunshared : ∀ e : Endpoint, service.methodName e false = e.name := fun _ => rfl
  cases hshares : group.shares e <;> cases hshares' : group.shares e'
  · refine iff_of_false (fun hname => ?_) (by simp)
    rw [EndpointGroup.shares_of_ne he he' hne hname] at hshares
    cases hshares
  · rw [hunshared, methodName_of_shares]
    simp [eq_comm]
  · rw [hunshared, methodName_of_shares]
    simp
  · rw [methodName_eq_methodName_iff]
    simp

theorem Serves.namesMethods {client : Bool} {d : DataDeclaration}
    (h : service.Serves client group d) :
    group.NamesMethods service.application.path d.methods := by
  obtain ⟨hlength, hoffers⟩ := List.forall₂_iff_zip.mp h.methods
  refine ⟨hlength.symm, ?_⟩
  rintro ⟨e, m⟩ hx ⟨e', m'⟩ hy hdiffer
  have hne : e ≠ e' := by
    rintro rfl
    rcases hdiffer with hverb | hpath
    · exact hverb rfl
    · exact hpath rfl
  rw [(hoffers hx).name, (hoffers hy).name]
  exact methodName_eq_iff (List.of_mem_zip hx).1 (List.of_mem_zip hy).1 hne

end Service

/-- Where services are declared, every group has its methods in a surface, in a client or in both,
and methods of endpoints that differ in verb or path bear one name if and only if the endpoints are
confused. -/
theorem Model.namesMethods_withServices (model : Model) (application : Application)
    (settings : Settings) (mapper : Mapper) (session : Session)
    (hmode : settings.restCodegen ≠ .neither) :
    List.Forall₂ (fun group d => group.NamesMethods application.path d.methods)
      (application.servedGroups settings)
      ((((model.withServices application settings mapper).run session).1.data.drop
        model.data.length).filter fun d => d.category == .service) := by
  obtain ⟨response, hadds⟩ := model.addsServices_withServices application mapper session hmode
  rw [← Service.filterMap_group?_roles]
  refine hadds.forall₂_filter (fun d hd => by rw [hd]; rfl) ?_ ?_
  · intro role d hserves hgroup
    cases role with
    | httpClient =>
      have hcategory : d.category = .servicePrerequisite := hserves
      rw [hcategory]
      rfl
    | surface group | client group => cases hgroup
  · intro role d group hserves hgroup
    cases role with
    | httpClient => cases hgroup
    | surface group' | client group' =>
      obtain rfl := Option.some.inj hgroup
      have hserves : Service.Serves _ _ _ d := hserves
      exact ⟨beq_iff_eq.mpr hserves.category, hserves.namesMethods⟩

/-- An endpoint whose path ends in a parameter. -/
def personEndpoint : Endpoint where
  name := "get"
  httpMethod := "GET"
  path := "people/{id}"
  resource := "People"

/-- An endpoint whose path ends in the name of that parameter. -/
def literalEndpoint : Endpoint :=
  { personEndpoint with path := "people/id" }

/-- An application with both endpoints. -/
def peopleApplication : Application where
  methods := [literalEndpoint, personEndpoint]

/-- Settings for interfaces only. -/
def peopleSettings : Settings where
  restCodegen := .surfaceOnly

/-- The interface of the two endpoints has two methods of one name. -/
theorem namesMethods_people : peopleSettings.restCodegen ≠ .neither ∧
    peopleApplication.servedGroups peopleSettings =
      [⟨.named "RestApplication", [literalEndpoint, personEndpoint]⟩] ∧
    literalEndpoint.path ≠ personEndpoint.path ∧
    ∃ d m m', ((Model.withServices peopleApplication peopleSettings (.builtIn peopleSettings {})
        {}).run {}).1.data.filter (fun d => d.category == .service) = [d] ∧
      d.methods = [m, m'] ∧ m.name = m'.name := by
  have hsorted : [literalEndpoint, personEndpoint].mergeSort (fun a b => a.path ≤ b.path) =
      [literalEndpoint, personEndpoint] := List.mergeSort_of_pairwise (by decide)
  have hgroups : peopleApplication.servedGroups peopleSettings =
      [⟨.named "RestApplication", [literalEndpoint, personEndpoint]⟩] :=
    congrArg (fun endpoints => [EndpointGroup.mk (.named "RestApplication") endpoints]) hsorted
  have hmode : peopleSettings.restCodegen ≠ .neither := by decide
  have hpaths : literalEndpoint.path ≠ personEndpoint.path := by decide
  have hconfused : EndpointGroup.Confuses
      ⟨.named "RestApplication", [literalEndpoint, personEndpoint]⟩ peopleApplication.path
      literalEndpoint personEndpoint :=
    .inl ⟨by decide, by decide, by decide, by decide +kernel⟩
  have hnamed := Model.namesMethods_withServices {} peopleApplication peopleSettings
    (.builtIn peopleSettings {}) {} hmode
  rw [hgroups, List.forall₂_cons_left_iff] at hnamed
  obtain ⟨d, rest, hnames, hrest, hdata⟩ := hnamed
  obtain rfl := List.forall₂_nil_left_iff.mp hrest
  obtain ⟨m, m', hmethods⟩ := List.length_eq_two.mp hnames.length_eq
  have hname := hnames.name_eq_iff (literalEndpoint, m) (by rw [hmethods]; simp)
    (personEndpoint, m') (by rw [hmethods]; simp) (.inr hpaths)
  exact ⟨hmode, hgroups, hpaths, d, m, m', hdata, hmethods, hname.mpr hconfused⟩

end Typings
