import Typings.Proofs.Model.Choices
import Typings.Proofs.UniformRepresentation

/-!
# Types of services and of properties

The types of properties are mapped when the model is built, and the types in services after dates,
enums and unions were settled for the rest of the model. What services have in common with
properties they have in the same form: a source type that a property has gets the type of that
property wherever it stands in an endpoint.

## Main definitions

* `TypeExpr.queryFields`: the single query parameters that a type is made of.
* `Method.Follows`: a method has a given type wherever its endpoint has a given source type.
* `Application.servedGroups`: the groups that declarations of services are made for.

## Main results

* `serviceTypes_eq_propertyTypes`: the methods of services follow the types of properties.
-/

namespace Typings

/-- Related lists stay related if the entries without an image are left out of both. -/
theorem forall₂_filterMap_filter {α β γ δ : Type} {R : α → β → Prop} {S : γ → δ → Prop}
    {f : α → Option γ} {g : β → δ} {keep : δ → Bool} {as : List α} {bs : List β}
    (h : List.Forall₂ R as bs) (hnone : ∀ a b, R a b → f a = none → keep (g b) = false)
    (hsome : ∀ a b c, R a b → f a = some c → keep (g b) = true ∧ S c (g b)) :
    List.Forall₂ S (as.filterMap f) ((bs.map g).filter keep) := by
  induction h with
  | nil => exact .nil
  | @cons a b _ _ hfirst _ ih =>
    rw [List.map_cons, List.filterMap_cons]
    cases hf : f a with
    | none => rwa [List.filter_cons_of_neg (by rw [hnone a b hfirst hf]; decide)]
    | some c =>
      obtain ⟨hkeep, hrelated⟩ := hsome a b c hfirst hf
      rw [List.filter_cons_of_pos hkeep]
      exact .cons hrelated ih

theorem exists_getElem?_of_forall₂ {α β : Type} {R : α → β → Prop} {as : List α} {bs : List β}
    (h : List.Forall₂ R as bs) {i : Nat} {a : α} (ha : as[i]? = some a) :
    ∃ b, bs[i]? = some b ∧ R a b := by
  induction h generalizing i with
  | nil => exact nomatch ha
  | cons hfirst _ ih =>
    cases i with
    | zero =>
      obtain rfl := Option.some.inj ha
      exact ⟨_, rfl, hfirst⟩
    | succ i => exact ih ha

/-! ## Methods that follow a type -/

def TypeExpr.shapeFields : TypeExpr → List (String × TypeExpr)
  | shape fields => fields
  | _ => []

/-- The single query parameters in the type of all query parameters. -/
def TypeExpr.queryFields (t : TypeExpr) : List (String × TypeExpr) :=
  match t.present with
  | intersection types => types.flatMap shapeFields
  | u => u.shapeFields

/-- The single parameter that a query parameter is. -/
def QueryParam.single? : QueryParam → Option EndpointParam
  | single param => some param
  | bean _ => none

/-- The single query parameters of an endpoint. -/
def Endpoint.singles (endpoint : Endpoint) : List EndpointParam :=
  endpoint.queryParams.filterMap QueryParam.single?

/-- Whether a method has a type wherever its endpoint has a source type: in the response, in the
parameters for the path and the body, and made optional in the query. -/
structure Method.Follows (m : Method) (endpoint : Endpoint) (response : Symbol)
    (source : SourceType) (type : TypeExpr) : Prop where
  result : endpoint.returnType = some source → m.result = .reference response [type]
  parameters : ∃ path body query options, m.parameters = path ++ body ++ query ++ options ∧
    List.Forall₂ (fun param p => p.name = Identifier.repair param.name ∧
      (param.type = source → p.type = type)) endpoint.pathParams path ∧
    List.Forall₂ (fun param p => p.name = param.name ∧ (param.type = source → p.type = type))
      endpoint.entity.toList body ∧
    List.Forall₂ (fun param field => field.1 = param.name ∧
      (param.type = source → field.2 = type.orAbsent)) endpoint.singles
        (query.flatMap (·.type.queryFields))

/-- The groups that declarations of services are made for: surfaces first, then clients. -/
def Application.servedGroups (application : Application) (settings : Settings) :
    List EndpointGroup :=
  let groups := application.groups settings.restGrouping
  (if settings.restCodegen.surface then groups else []) ++
    if settings.restCodegen.client then groups else []

namespace Service

variable {service : Service} {table : SymbolTable}

/-- The group that a declaration of services is made for. -/
def Role.group? : Role → Option EndpointGroup
  | surface group | client group => some group
  | httpClient => none

theorem filterMap_group?_roles (application : Application) (settings : Settings) :
    (application.roles settings).filterMap Role.group? = application.servedGroups settings := by
  unfold Application.roles Application.servedGroups
  rw [List.filterMap_append]
  congr 1
  · split
    · rw [List.filterMap_map]
      exact List.filterMap_some
    · rfl
  · split
    · rw [List.filterMap_cons, List.filterMap_map]
      exact List.filterMap_some
    · rfl

theorem IsDeclared.methods_of_group? {beans : List DataDeclaration} {role : Role}
    {d : DataDeclaration} (h : service.IsDeclared table beans role d) {group : EndpointGroup}
    (hgroup : role.group? = some group) :
    d.category = .service ∧ ∃ client, List.Forall₂ (service.IsMethod table beans client)
      group.endpoints d.methods := by
  cases h with
  | surface _ hmethods =>
    obtain rfl := Option.some.inj hgroup
    exact ⟨rfl, false, hmethods⟩
  | httpClient => exact nomatch hgroup
  | client _ _ _ _ hmethods =>
    obtain rfl := Option.some.inj hgroup
    exact ⟨rfl, true, hmethods⟩

theorem IsDeclared.category_of_group? {beans : List DataDeclaration} {role : Role}
    {d : DataDeclaration} (h : service.IsDeclared table beans role d)
    (hgroup : role.group? = none) : d.category ≠ .service := by
  cases h with
  | surface _ _ => exact nomatch hgroup
  | httpClient => exact nofun
  | client _ _ _ _ _ => exact nomatch hgroup

/-- The single parameters of a query stand in the shapes of its types, in their order. -/
theorem flatMap_shapeFields_queryTypesImage (params : List QueryParam)
    (singles : List (String × TypeExpr)) :
    (service.queryTypesImage table singles params).flatMap TypeExpr.shapeFields =
      singles ++ (params.filterMap QueryParam.single?).map fun param =>
        (param.name, (service.typeImage table param.type).orAbsent) := by
  have hshape : ∀ fields : List (String × TypeExpr),
      (shapeOf fields).flatMap TypeExpr.shapeFields = fields := by
    intro fields
    cases fields with
    | nil => rfl
    | cons field rest => simp [shapeOf, TypeExpr.shapeFields]
  induction params generalizing singles with
  | nil => rw [queryTypesImage, hshape, List.filterMap_nil, List.map_nil, List.append_nil]
  | cons param rest ih =>
    cases param with
    | single param =>
      rw [queryTypesImage, ih, List.append_assoc]
      rfl
    | bean bean =>
      rw [queryTypesImage, List.flatMap_append, hshape, List.flatMap_cons, ih]
      rfl

/-- The types of a query are shapes and references to beans. -/
theorem shape_or_bare_of_mem_queryTypesImage {params : List QueryParam}
    {singles : List (String × TypeExpr)} {t : TypeExpr}
    (h : t ∈ service.queryTypesImage table singles params) :
    (∃ fields, t = .shape fields) ∨ ∃ s, t = .bare s := by
  have hshape : ∀ {fields : List (String × TypeExpr)}, t ∈ shapeOf fields →
      (∃ fields, t = .shape fields) ∨ ∃ s, t = .bare s := by
    intro fields ht
    unfold shapeOf at ht
    split at ht
    · exact absurd ht List.not_mem_nil
    · exact .inl ⟨fields, List.mem_singleton.mp ht⟩
  induction params generalizing singles with
  | nil => exact hshape h
  | cons param rest ih =>
    cases param with
    | single param => exact ih h
    | bean bean =>
      rw [queryTypesImage, List.mem_append, List.mem_cons] at h
      rcases h with h | h | h
      · exact hshape h
      · exact .inr ⟨_, h⟩
      · exact ih h

end Service

namespace Compilation

variable {builder : Builder} (c : Compilation builder)

/-- A reference is replaced by a reference or by the values of an enum. -/
theorem apply_bare (s : Symbol) :
    (∃ s', c.choices.apply (.bare s) = .bare s') ∨
      ∃ texts, c.choices.apply (.bare s) = .literalUnion texts := by
  have hdated : (TypeExpr.bare s).dated c.choices.date = .bare s := by
    apply TypeExpr.dated_eq_self
    simp [TypeExpr.nodes, TypeExpr.isTemporal]
  have hreplaced : ∀ substitution, (TypeExpr.bare s).replaceBare substitution =
      (substitution s).getD (.bare s) := fun _ => rfl
  unfold Choices.apply
  rw [hdated, hreplaced]
  cases henum : c.choices.enum s with
  | none =>
    rw [Option.getD_none, hreplaced]
    cases hunion : c.choices.union s with
    | none => exact .inl ⟨s, rfl⟩
    | some union => exact .inl ⟨union, rfl⟩
  | some definition =>
    obtain ⟨texts, rfl⟩ := c.inlinesLiterals s definition henum
    refine .inr ⟨texts, ?_⟩
    rw [Option.getD_some]
    apply TypeExpr.transform_eq_self
    intro n hn
    have hnode : n.bareSymbol? = none := by
      unfold TypeExpr.literalUnion at hn
      split at hn
      · rw [List.mem_singleton.mp hn]
        rfl
      · simp only [TypeExpr.nodes, TypeExpr.nodesAll_eq_flatMap, List.mem_cons, List.mem_flatMap,
          List.mem_map] at hn
        rcases hn with rfl | ⟨_, ⟨text, -, rfl⟩, hn⟩
        · rfl
        · rw [List.mem_singleton.mp hn]
          rfl
    rw [hnode]
    rfl

/-- The fields of a shape are rewritten one by one, and a reference does not become a shape. Neither
becomes an intersection. -/
theorem shapeFields_apply {t : TypeExpr} (h : (∃ fields, t = .shape fields) ∨ ∃ s, t = .bare s) :
    (c.choices.apply t).shapeFields = (t.shapeFields.map fun f => (f.1, c.choices.apply f.2)) ∧
      (TypeExpr.optional (c.choices.apply t)).queryFields = (c.choices.apply t).shapeFields := by
  rcases h with ⟨fields, rfl⟩ | ⟨s, rfl⟩
  · rw [Choices.apply_shape]
    exact ⟨rfl, rfl⟩
  · rcases c.apply_bare s with ⟨s', heq⟩ | ⟨texts, heq⟩
    · rw [heq]
      exact ⟨rfl, rfl⟩
    · rw [heq]
      unfold TypeExpr.literalUnion
      split <;> exact ⟨rfl, rfl⟩

/-- The single parameters of a query are rewritten one by one. -/
theorem queryFields_apply {types : List TypeExpr}
    (h : ∀ t ∈ types, (∃ fields, t = .shape fields) ∨ ∃ s, t = .bare s) :
    (c.choices.apply (Service.intersect types).orAbsent).queryFields =
      (types.flatMap TypeExpr.shapeFields).map fun f => (f.1, c.choices.apply f.2) := by
  have hintersection : ∀ types : List TypeExpr,
      (∀ t ∈ types, (∃ fields, t = .shape fields) ∨ ∃ s, t = .bare s) →
      (c.choices.apply (TypeExpr.intersection types).orAbsent).queryFields =
        (types.flatMap TypeExpr.shapeFields).map fun f => (f.1, c.choices.apply f.2) := by
    intro types h
    have happly : c.choices.apply (TypeExpr.intersection types).orAbsent =
        .optional (.intersection (types.map c.choices.apply)) := by
      rw [← Choices.apply_intersection, ← Choices.apply_optional]
      rfl
    rw [happly, List.map_flatMap]
    show (types.map c.choices.apply).flatMap TypeExpr.shapeFields = _
    rw [List.flatMap_map]
    apply List.flatMap_congr
    intro t ht
    exact (c.shapeFields_apply (h t ht)).1
  match types, h with
  | [], h => exact hintersection [] h
  | [t], h =>
    have ht := h t List.mem_cons_self
    have hpresent : t.orAbsent = .optional t := by
      rcases ht with ⟨fields, rfl⟩ | ⟨s, rfl⟩ <;> rfl
    obtain ⟨hfields, hquery⟩ := c.shapeFields_apply ht
    rw [Service.intersect, hpresent, Choices.apply_optional, hquery, hfields,
      List.flatMap_singleton]
  | t :: u :: rest, h => exact hintersection (t :: u :: rest) h

/-- The method of an endpoint, with its types rewritten, follows the rewritten image of every source
type. -/
theorem follows {service : Service} {beans : List DataDeclaration} {client : Bool}
    {endpoint : Endpoint} {m m' : Method} (hm : service.IsMethod c.table beans client endpoint m)
    (hparameters : m'.parameters =
      m.parameters.map fun p => { p with type := c.choices.apply p.type })
    (hresult : m'.result = c.choices.apply m.result) (source : SourceType) :
    m'.Follows endpoint service.response source
      (c.choices.apply (service.typeImage c.table source)) where
  result hreturn := by
    rw [hresult, hm.result, Service.resultImage, hreturn, Service.responseOf,
      Choices.apply_reference]
    rfl
  parameters := by
    rw [hparameters, hm.parameters, Service.parametersImage, Service.valuesImage, List.map_append,
      List.map_append, List.map_append]
    refine ⟨_, _, _, _, rfl, ?_, ?_, ?_⟩
    · rw [List.forall₂_map_right_iff, List.forall₂_map_right_iff]
      exact List.forall₂_same.mpr fun param _ => ⟨rfl, fun htype => by rw [htype]⟩
    · rw [List.forall₂_map_right_iff, List.forall₂_map_right_iff]
      exact List.forall₂_same.mpr fun param _ => ⟨rfl, fun htype => by rw [htype]⟩
    · have hfields : ((service.queryImage c.table endpoint).map fun p =>
          { p with type := c.choices.apply p.type }).flatMap (·.type.queryFields) =
            endpoint.singles.map fun param =>
              (param.name, (c.choices.apply (service.typeImage c.table param.type)).orAbsent) := by
        unfold Service.queryImage Endpoint.singles
        split
        case isTrue hnone =>
          rw [List.isEmpty_iff.mp hnone]
          rfl
        case isFalse =>
          rw [List.map_singleton, List.flatMap_singleton, c.queryFields_apply fun t ht =>
            Service.shape_or_bare_of_mem_queryTypesImage ht,
            Service.flatMap_shapeFields_queryTypesImage, List.nil_append, List.map_map]
          apply List.map_congr_left
          intro param _
          rw [Function.comp, c.apply_orAbsent]
      rw [hfields, List.forall₂_map_right_iff]
      exact List.forall₂_same.mpr fun param _ => ⟨rfl, fun htype => by rw [htype]⟩

/-! ## The declarations of services -/

/-- Copy functions change the code of methods only. -/
theorem exists_copied {represented : Model} {response : Symbol}
    (h : c.served = represented ∨ c.served = represented.withCopyFunctions response) :
    ∃ g : DataDeclaration → DataDeclaration, c.served.data = represented.data.map g ∧
      ∀ d, (g d).category = d.category ∧ (g d).properties = d.properties ∧
        ∃ k : Method → Method, (g d).methods = d.methods.map k ∧
          ∀ m, (k m).parameters = m.parameters ∧ (k m).result = m.result := by
  rcases h with h | h
  · refine ⟨id, by rw [h, List.map_id], fun d => ⟨rfl, rfl, id, ?_, fun _ => ⟨rfl, rfl⟩⟩⟩
    rw [List.map_id]
    rfl
  · refine ⟨_, congrArg (·.data) h, fun d => ?_⟩
    split
    · refine ⟨rfl, rfl, _, rfl, fun m => ?_⟩
      rw [Model.addCopyFunction_eq]
      exact ⟨rfl, rfl⟩
    · exact ⟨rfl, rfl, id, by rw [List.map_id], fun _ => ⟨rfl, rfl⟩⟩

/-- Services follow the rewritten image of every source type. -/
theorem services_follow {application : Application} (hrest : builder.graph.rest = some application)
    (hmode : builder.settings.restCodegen ≠ .neither) :
    ∃ response, c.table.find? (.synthetic "RestResponse") = some response ∧ ∀ source,
      List.Forall₂
        (fun group d => List.Forall₂ (fun endpoint m => Method.Follows m endpoint response
          source (c.choices.apply
            ((builder.mapper.image c.table.symbolOf source).toOption.getD .any)))
        group.endpoints d.methods) (application.servedGroups builder.settings)
        (c.served.data.filter fun d => d.category == .service) := by
  obtain ⟨response, extended, declared, beans, aliases, represented, hresponse, hextends,
      hdata, hserved, -⟩ := c.data_served hrest hmode
  obtain ⟨g, hg, hcopied⟩ := c.exists_copied hserved
  refine ⟨response, hresponse, fun source => ?_⟩
  have hclasses : (c.revived.data.map g).filter (fun d => d.category == .service) = [] := by
    rw [List.filter_eq_nil_iff, List.forall_mem_map]
    intro d hd
    obtain ⟨source, -, hframe⟩ := c.exists_classFrame_revived hd
    have hcategory : d.category = .data := congrArg (·.category) hframe
    rw [(hcopied d).1, hcategory]
    decide
  have hbeans : ((beans.map (·.mapTypes c.choices.apply)).map g).filter
      (fun d => d.category == .service) = [] := by
    rw [List.filter_eq_nil_iff, List.forall_mem_map, List.forall_mem_map]
    intro d hd
    obtain ⟨_, -, _, -, -, hbean⟩ := hextends.areBeans.each d hd
    rw [(hcopied _).1, hbean.shape]
    exact Bool.false_ne_true
  rw [hg, hdata, List.map_append, List.map_append, List.map_append, List.filter_append,
    List.filter_append, hclasses, hbeans, List.nil_append, List.append_nil, List.map_map,
    ← Service.filterMap_group?_roles]
  apply forall₂_filterMap_filter hextends.declaredFor
  · intro role d hrole hgroup
    have hcategory := hrole.2.category_of_group? hgroup
    rw [Function.comp, (hcopied _).1]
    exact beq_eq_false_iff_ne.mpr hcategory
  · intro role d group hrole hgroup
    obtain ⟨hcategory, client, hmethods⟩ := hrole.2.methods_of_group? hgroup
    refine ⟨by rw [Function.comp, (hcopied _).1]; exact beq_iff_eq.mpr hcategory, ?_⟩
    obtain ⟨k, hk, hkept⟩ := (hcopied (d.mapTypes c.choices.apply)).2.2
    rw [Function.comp, hk, DataDeclaration.mapTypes, List.forall₂_map_right_iff,
      List.forall₂_map_right_iff]
    exact hmethods.imp fun endpoint m hm => c.follows hm (hkept _).1 (hkept _).2 source

/-- The listed properties come first among those of the model with services, rewritten. -/
theorem properties_served {application : Application}
    (hrest : builder.graph.rest = some application)
    (hmode : builder.settings.restCodegen ≠ .neither) :
    ∃ others, c.served.data.map (·.properties) = (c.reconciled.data.map fun d =>
      d.properties.map fun p => { p with type := c.choices.apply p.type }) ++ others := by
  obtain ⟨_, _, declared, beans, _, represented, -, -, hdata, hserved, -⟩ :=
    c.data_served hrest hmode
  obtain ⟨g, hg, hcopied⟩ := c.exists_copied hserved
  have hrevived : c.revived.data.map (·.properties) = c.united.data.map (·.properties) := by
    unfold revived Model.revive
    split
    case isFalse => rfl
    case isTrue =>
      simp only [Model.withRevival, Model.data_withHelper, List.map_map]
      apply List.map_congr_left
      intro d _
      rw [Function.comp]
      split <;> rfl
  have hkept : c.served.data.map (·.properties) = represented.data.map (·.properties) := by
    rw [hg, List.map_map]
    apply List.map_congr_left
    intro d _
    exact (hcopied d).2.1
  rw [hkept, hdata, List.map_append, hrevived, c.properties_united]
  exact ⟨_, rfl⟩

end Compilation

/-! ## Services follow properties -/

/-- Where services are declared, every source type that a listed property has gets the type of that
property in the methods of services. The listed properties have the types that they are built
with. -/
theorem serviceTypes_eq_propertyTypes {graph : SourceGraph} {settings : Settings} {out : Compiled}
    {application : Application} (h : compile graph settings = .ok out)
    (hrest : graph.rest = some application) (hmode : settings.restCodegen ≠ .neither) :
    (∀ (i : Nat) (c : SourceClass), graph.classes[i]? = some c →
      ∃ d : DataDeclaration, (graph.builder settings).earlyRun.1.data[i]? = some d ∧
        ∀ p ∈ c.properties, p.pull = none → p.optional = false → ∀ type,
          (graph.builder settings).mapper.image out.symbolOf p.type = .ok type →
            ∃ q ∈ d.properties, q.name = p.name ∧ q.type = type) ∧
    ∃ response, (graph.builder settings).servedRun.2.symbols.find? (.synthetic "RestResponse") =
        some response ∧
      ∀ source type, (graph.builder settings).mapper.image out.symbolOf source = .ok type →
        ∀ (i k : Nat) (d : DataDeclaration) (q : Property),
          (graph.builder settings).earlyRun.1.withoutRestated.withImplemented.data[i]? = some d →
          d.properties[k]? = some q → q.type = type → ∃ (d' : DataDeclaration) (q' : Property),
            (graph.builder settings).servedRun.1.data[i]? = some d' ∧
            d'.properties[k]? = some q' ∧ q'.name = q.name ∧
            List.Forall₂ (fun group service => List.Forall₂
                (fun endpoint m => Method.Follows m endpoint response source q'.type)
                group.endpoints service.methods)
              (application.servedGroups settings)
              ((graph.builder settings).servedRun.1.data.filter fun d =>
                d.category == .service) := by
  obtain ⟨-, -, hfinish⟩ := compileWith_eq_ok_iff.mp h
  obtain ⟨c, -, htable, hbuilt, -, hserved, -⟩ := (graph.builder settings).exists_stages
  have hsymbols : out.symbolOf = c.table.symbolOf := by
    rw [SymbolTable.symbolOf_of_resolve (ok_finish hfinish).1, htable]
    rfl
  rw [hsymbols]
  constructor
  · intro i source hsource
    obtain ⟨d, hd, hbuilds⟩ := exists_getElem?_of_forall₂ c.builds.data hsource
    refine ⟨d, hbuilt ▸ hd, fun p hp hpull hoptional type htype => ?_⟩
    obtain ⟨q, hq, hname, hqtype⟩ := hbuilds.plain p hp hpull
    refine ⟨q, hq, hname, ?_⟩
    rw [hqtype, Builder.propertyType, hoptional, htype]
    rfl
  · obtain ⟨response, hresponse, hfollow⟩ := c.services_follow hrest hmode
    refine ⟨response, htable ▸ hresponse, ?_⟩
    intro source type htype i k d q hd hq hqtype
    have hd : c.reconciled.data[i]? = some d := by
      rw [Compilation.reconciled, hbuilt]
      exact hd
    obtain ⟨others, hothers⟩ := c.properties_served hrest hmode
    have hproperties : (c.served.data.map (·.properties))[i]? =
        some (d.properties.map fun p => { p with type := c.choices.apply p.type }) := by
      have hlt : i < c.reconciled.data.length := (List.getElem?_eq_some_iff.mp hd).1
      rw [hothers, List.getElem?_append_left (by rwa [List.length_map]), List.getElem?_map, hd,
        Option.map_some]
    rw [List.getElem?_map] at hproperties
    obtain ⟨d', hd', heq⟩ := Option.map_eq_some_iff.mp hproperties
    rw [hserved] at hd'
    refine ⟨d', { q with type := c.choices.apply q.type }, hd', ?_, rfl, ?_⟩
    · rw [heq, List.getElem?_map, hq, Option.map_some]
    · have hfollows := hfollow source
      rw [htype, Except.toOption, Option.getD_some, ← hqtype, hserved] at hfollows
      exact hfollows

/-- A class with a date, and an endpoint that has dates in its query, its body and its response. -/
def stockGraph : SourceGraph where
  classes := [{ name := "Item", properties := [{ name := "made", type := .named "Date" [] }] }]
  rest := some
    { methods :=
        [{ name := "find", httpMethod := "POST", path := "items", resource := "Stock"
           queryParams := [.single { name := "since", type := .named "Date" [] }]
           entity := some { name := "day", type := .named "Date" [] }
           returnType := some (.named "Date" []) }] }

/-- Settings that represent dates by texts, with surfaces and clients. -/
def stockSettings : Settings :=
  { giftSettings with restCodegen := .both }

theorem serviceTypes_stock :
    ∃ out response, compile stockGraph stockSettings = .ok out ∧
      ∃ (d : DataDeclaration) (q : Property),
        (stockGraph.builder stockSettings).servedRun.1.data[0]? = some d ∧
        d.properties[0]? = some q ∧
        ∀ application, stockGraph.rest = some application → List.Forall₂ (fun group service =>
            List.Forall₂
              (fun endpoint m => Method.Follows m endpoint response (.named "Date" []) q.type)
              group.endpoints service.methods)
          (application.servedGroups stockSettings)
          ((stockGraph.builder stockSettings).servedRun.1.data.filter fun d =>
            d.category == .service) := by
  have hcompiles : (compile stockGraph stockSettings).toOption.isSome = true := by cbv
  obtain ⟨out, hout⟩ := exists_ok_of_isSome hcompiles
  have hlisted :
      (((stockGraph.builder stockSettings).earlyRun.1.withoutRestated.withImplemented.data[0]?.bind
      (·.properties[0]?)).map (·.type)) = some .temporal := by cbv
  have himage : ∀ symbolOf : String → Symbol,
      (stockGraph.builder stockSettings).mapper.image symbolOf (.named "Date" []) =
        .ok .temporal := by
    intro symbolOf
    have hplan : (stockGraph.builder stockSettings).mapper.firstPlan? "Date" =
        some (.primitive, .fixed .temporal) := by cbv
    rw [Mapper.image, hplan]
  obtain ⟨q, hq, htype⟩ := Option.map_eq_some_iff.mp hlisted
  obtain ⟨d, hd, hq⟩ := Option.bind_eq_some_iff.mp hq
  have hmode : stockSettings.restCodegen ≠ .neither := by decide
  obtain ⟨application, hrest⟩ : ∃ application, stockGraph.rest = some application := ⟨_, rfl⟩
  obtain ⟨-, response, -, hfollow⟩ := serviceTypes_eq_propertyTypes hout hrest hmode
  obtain ⟨d', q', hd', hq', -, hservices⟩ :=
    hfollow (.named "Date" []) .temporal (himage _) 0 0 d q hd hq htype
  refine ⟨out, response, hout, d', q', hd', hq', ?_⟩
  intro application' hrest'
  obtain rfl := Option.some.inj (hrest.symm.trans hrest')
  exact hservices

end Typings
