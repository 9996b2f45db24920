import Typings.Proofs.Mapping.Image
import Typings.Proofs.Model.Within
import Typings.Service.Endpoints

/-!
# What the methods of endpoints mention

Compiling an endpoint issues symbols and declares query beans on the way. Beans are only added, so a
method is described by the beans at the end of the work.

## Main definitions

* `ServiceWork.Yields`: what work on endpoints returns, given the beans at its end.
* `Service.IsBean`: a declaration stands for a query bean of the application.
* `Service.Fits`: a vocabulary has what the methods of endpoints mention.

## Main results

* `Service.yields_queryBean`: a query bean is declared once.
* `Service.yields_groupMethods`: the methods of a group.
-/

namespace Typings

/-! ## Work that declares beans -/

namespace ServiceWork

variable {α β : Type} {lo hi : SymbolTable} {I : List DataDeclaration → Prop}
  {final : List DataDeclaration}

/-- Runs of the work keep all beans, and `I` true of them. If the beans at the end are among the
final ones, the value that is returned satisfies `post`. -/
def Yields (lo hi : SymbolTable) (I : List DataDeclaration → Prop) (final : List DataDeclaration)
    (work : ServiceWork α) (post : α → Prop) : Prop :=
  ∀ beans, Work.Yields lo hi (work.run beans) fun result =>
    (I beans → I result.2) ∧ beans ⊆ result.2 ∧ (result.2 ⊆ final → post result.1)

namespace Yields

variable {work : ServiceWork α} {post : α → Prop}

theorem pure {a : α} (h : post a) : Yields lo hi I final (pure a : ServiceWork α) post :=
  fun beans => .pure ⟨id, List.Subset.refl beans, fun _ => h⟩

theorem bind {next : α → ServiceWork β} {P : α → Prop} {post : β → Prop}
    (first : Yields lo hi I final work P)
    (rest : ∀ a, Yields lo hi I final (next a) fun b => P a → post b) :
    Yields lo hi I final (work >>= next) post := by
  intro beans
  refine .bind (first beans) fun mid => (rest mid.1 mid.2).mono fun result hrest hfirst => ?_
  obtain ⟨hinv, hsub, hpost⟩ := hrest
  obtain ⟨hinv', hsub', hmid⟩ := hfirst
  exact ⟨fun h => hinv (hinv' h), List.Subset.trans hsub' hsub,
    fun h => hpost h (hmid (List.Subset.trans hsub h))⟩

theorem mono {post' : α → Prop} (h : Yields lo hi I final work post)
    (himp : ∀ a, post a → post' a) : Yields lo hi I final work post' :=
  fun beans => (h beans).mono fun _ ⟨hinv, hsub, hpost⟩ => ⟨hinv, hsub, fun hf => himp _ (hpost hf)⟩

theorem map {f : α → β} {post : β → Prop} (h : Yields lo hi I final work fun a => post (f a)) :
    Yields lo hi I final (f <$> work) post :=
  .bind h fun _ => .pure id

/-- Work on the session alone leaves the beans as they are. -/
theorem lift {work : Work α} (h : Work.Yields lo hi work post) :
    Yields lo hi I final (liftM work : ServiceWork α) post := by
  intro beans
  show Work.Yields lo hi (work >>= fun a => Pure.pure (a, beans)) _
  exact .bind h fun _ => .pure fun ha => ⟨id, List.Subset.refl beans, fun _ => ha⟩

/-- What the work on the session yields is known whatever the final beans are. -/
theorem lift_bind {work : Work α} {next : α → ServiceWork β} {P : α → Prop} {post : β → Prop}
    (first : Work.Yields lo hi work P)
    (rest : ∀ a beans, Work.Yields lo hi ((next a).run beans) fun result =>
      P a → (I beans → I result.2) ∧ beans ⊆ result.2 ∧ (result.2 ⊆ final → post result.1)) :
    Yields lo hi I final (liftM work >>= next) post := by
  intro beans
  show Work.Yields lo hi (work >>= fun a => (next a).run beans) _
  exact .bind first fun a => rest a beans

theorem mapM {f : α → ServiceWork β} {R : α → β → Prop} {as : List α}
    (h : ∀ a ∈ as, Yields lo hi I final (f a) (R a)) :
    Yields lo hi I final (as.mapM f) (List.Forall₂ R as) := by
  induction as with
  | nil => exact .pure .nil
  | cons a as ih =>
    rw [List.mapM_cons]
    obtain ⟨hfirst, hrest⟩ := List.forall_mem_cons.mp h
    refine .bind hfirst fun b => .bind (ih hrest) fun bs => .pure ?_
    intro hbs hb
    exact .cons hb hbs

/-- The beans that work ends with are the final ones. -/
theorem run {post : List DataDeclaration → α → Prop} (hnil : I [])
    (h : ∀ final, Yields lo hi I final work (post final)) :
    Work.Yields lo hi (work.run []) fun result => I result.2 ∧ post result.2 result.1 where
  grows := (h [] []).grows
  holds {s} after before := by
    obtain ⟨hinv, -, hpost⟩ := (h ((work.run []).run s).1.2 []).holds after before
    exact ⟨hinv hnil, hpost (List.Subset.refl _)⟩

end Yields

end ServiceWork

/-! ## Source types of endpoints -/

def QueryParam.sourceTypes : QueryParam → List SourceType
  | .single param => [param.type]
  | .bean source => source.properties.map (·.type)

def Endpoint.sourceTypes (endpoint : Endpoint) : List SourceType :=
  endpoint.pathParams.map (·.type) ++ endpoint.entity.toList.map (·.type) ++
    endpoint.queryParams.flatMap (·.sourceTypes) ++ endpoint.returnType.toList

def Vocabulary.Binds (voc : Vocabulary) (sources : List SourceType) : Prop :=
  ∀ source ∈ sources, ∀ v ∈ source.vars, voc.var v

theorem Vocabulary.Binds.subset {voc : Vocabulary} {sources sources' : List SourceType}
    (h : voc.Binds sources) (hsub : sources' ⊆ sources) : voc.Binds sources' :=
  fun source hsource => h source (hsub hsource)

namespace Service

open Work (yields_report yields_warn yields_entitySymbol)

variable {service : Service} {lo hi : SymbolTable} {final : List DataDeclaration}

/-! ## Images of endpoints -/

section Images

variable (service : Service) (table : SymbolTable)

/-- The type of something in an endpoint. -/
def typeImage (source : SourceType) : TypeExpr :=
  (service.mapper.image table.symbolOf source).toOption.getD .any

def beanImage (p : SourceProperty) : Property where
  name := p.name
  type := if p.optional then (service.typeImage table p.type).orAbsent
    else service.typeImage table p.type
  comments := p.comments

/-- The symbol of a query bean, which any symbol stands in for if none was issued. -/
def beanSymbol (bean : SourceClass) : Symbol :=
  (table.find? (.entity bean.name "QueryParams")).getD default

/-- The types of query parameters. A run of single parameters starts with the given ones. -/
def queryTypesImage (singles : List (String × TypeExpr)) : List QueryParam → List TypeExpr
  | [] => shapeOf singles
  | .single param :: rest =>
    queryTypesImage (singles ++ [(param.name, (service.typeImage table param.type).orAbsent)]) rest
  | .bean bean :: rest =>
    shapeOf singles ++ .bare (beanSymbol table bean) :: queryTypesImage [] rest

/-- The parameter for the query, if there is one. -/
def queryImage (endpoint : Endpoint) : List Parameter :=
  if endpoint.queryParams.isEmpty then []
  else
    let types := service.queryTypesImage table [] endpoint.queryParams
    [{ name := "queryParams", type := (intersect types).orAbsent }]

/-- The parameters of the path and of the body of an endpoint. -/
def valuesImage (endpoint : Endpoint) : List Parameter :=
  (endpoint.pathParams.map fun param =>
    { name := Identifier.repair param.name, type := service.typeImage table param.type }) ++
  endpoint.entity.toList.map fun param =>
    { name := param.name, type := service.typeImage table param.type }

/-- The parameter for options, if there is one. -/
def optionsParameters : List Parameter :=
  service.optionsType?.toList.map fun type => { name := "options", type := type.orAbsent }

def parametersImage (endpoint : Endpoint) : List Parameter :=
  service.valuesImage table endpoint ++ service.queryImage table endpoint ++
    service.optionsParameters

def resultImage (endpoint : Endpoint) : TypeExpr :=
  service.responseOf ((endpoint.returnType.map (service.typeImage table)).getD (.primitive .void))

end Images

/-! ## Beans -/

/-- Whether a declaration stands for a query bean. -/
structure Declares (service : Service) (table : SymbolTable) (bean : SourceClass)
    (b : DataDeclaration) : Prop where
  shape : b = { symbol := b.symbol, properties := b.properties, comments := b.comments }
  properties : b.properties = bean.properties.map (service.beanImage table)

/-- Whether a declaration stands for a query bean of the application. -/
def IsBean (service : Service) (table : SymbolTable) (b : DataDeclaration) : Prop :=
  ∃ endpoint ∈ service.application.methods, ∃ bean, .bean bean ∈ endpoint.queryParams ∧
    table.find? (.entity bean.name "QueryParams") = some b.symbol ∧ service.Declares table bean b

/-- Whether declarations stand for different query beans. -/
structure AreBeans (service : Service) (table : SymbolTable) (beans : List DataDeclaration) :
    Prop where
  each : ∀ b ∈ beans, service.IsBean table b
  nodup : (beans.map (·.symbol)).Nodup

/-- Whether a vocabulary has what the methods of endpoints mention besides variables. -/
structure Fits (service : Service) (table : SymbolTable) (beans : List DataDeclaration)
    (voc : Vocabulary) : Prop where
  mapped : service.mapper.Covered table.symbolOf voc
  response : voc.symbol service.response 1
  bean : ∀ b ∈ beans, voc.symbol b.symbol 0
  option : ∀ v ∈ service.typeParameters, voc.var v

/-! ## Types -/

theorem yields_typeOf (endpoint : Endpoint) (source : SourceType) :
    Work.Yields lo hi (service.typeOf endpoint source) (· = service.typeImage hi source) := by
  refine .bind (Mapper.yields_map source) fun mapped => ?_
  cases mapped with
  | error unresolved =>
    refine .bind (yields_warn _) fun _ => .pure fun _ h => ?_
    rw [typeImage, ← h]
    rfl
  | ok t =>
    refine .pure fun h => ?_
    rw [typeImage, ← h]
    rfl

variable {endpoint : Endpoint} {voc : Vocabulary}

theorem within_typeImage (hvoc : service.mapper.Covered hi.symbolOf voc) {source : SourceType}
    (hbinds : voc.Binds [source]) : (service.typeImage hi source).Within voc := by
  unfold typeImage
  cases h : service.mapper.image hi.symbolOf source with
  | error unresolved => exact TypeExpr.within_any
  | ok t => exact Mapper.within_image hvoc source (hbinds source List.mem_cons_self) h

theorem yields_beanProperty (endpoint : Endpoint) (p : SourceProperty) :
    Work.Yields lo hi (service.beanProperty endpoint p) (· = service.beanImage hi p) :=
  .bind (yields_typeOf endpoint p.type) fun _ => .pure fun h => h ▸ rfl

theorem yields_beanDeclaration (endpoint : Endpoint) (bean : SourceClass) (symbol : Symbol) :
    Work.Yields lo hi (service.beanDeclaration endpoint bean symbol) fun b =>
      b.symbol = symbol ∧ service.Declares hi bean b := by
  refine .bind (.mapM fun p _ => yields_beanProperty endpoint p) fun properties =>
    .bind (yields_report _ _ _) fun _ => .pure fun _ hproperties => ⟨rfl, rfl, ?_⟩
  have hproperties' := map_eq_map_of_forall₂ (g := id) hproperties fun _ _ h => h.symm
  rw [List.map_id] at hproperties'
  exact hproperties'.symm

/-- The properties of a query bean mention what its source types mention. -/
theorem Declares.propertiesWithin {bean : SourceClass} {b : DataDeclaration}
    (h : service.Declares hi bean b) (hvoc : service.mapper.Covered hi.symbolOf voc)
    (hbinds : voc.Binds (bean.properties.map (·.type))) : b.PropertiesWithin voc := by
  intro q hq
  rw [h.properties] at hq
  obtain ⟨p, hp, rfl⟩ := List.mem_map.mp hq
  have htype : (service.typeImage hi p.type).Within voc :=
    within_typeImage hvoc (hbinds.subset (by simpa using ⟨p, hp, rfl⟩))
  unfold beanImage
  split
  · exact TypeExpr.within_orAbsent.mpr htype
  · exact htype

/-- A query bean is declared once, and its symbol is returned. -/
theorem yields_queryBean (hendpoint : endpoint ∈ service.application.methods) {bean : SourceClass}
    (hbean : .bean bean ∈ endpoint.queryParams) :
    ServiceWork.Yields lo hi (service.AreBeans hi) final (service.queryBean endpoint bean)
      fun symbol => symbol = beanSymbol hi bean ∧ ∃ b ∈ final, b.symbol = symbol := by
  have hissued : ∀ {symbol}, hi.find? (.entity bean.name "QueryParams") = some symbol →
      symbol = beanSymbol hi bean := fun h => by rw [beanSymbol, h, Option.getD_some]
  refine .lift_bind (yields_entitySymbol bean.name "QueryParams") fun symbol beans => ?_
  show Work.Yields lo hi ((if beans.any (·.symbol == symbol) then _ else _ : ServiceWork Symbol).run
    beans) _
  split
  case isTrue hfound =>
    refine .pure fun hsymbol => ⟨id, List.Subset.refl beans, fun hfinal => ⟨hissued hsymbol, ?_⟩⟩
    obtain ⟨b, hb, hsymbol⟩ := List.any_eq_true.mp hfound
    exact ⟨b, hfinal hb, eq_of_beq hsymbol⟩
  case isFalse hnew =>
    show Work.Yields lo hi (service.beanDeclaration endpoint bean symbol >>= fun declared =>
      Pure.pure (symbol, beans ++ [declared])) _
    refine .bind (yields_beanDeclaration endpoint bean symbol) fun b => .pure ?_
    rintro ⟨rfl, hdeclares⟩ hsymbol
    refine ⟨fun hbeans => ⟨?_, ?_⟩, by simp,
      fun hfinal => ⟨hissued hsymbol, b, hfinal (by simp), rfl⟩⟩
    · rw [List.forall_mem_append, List.forall_mem_singleton]
      exact ⟨hbeans.each, endpoint, hendpoint, bean, hbean, hsymbol, hdeclares⟩
    · rw [List.map_append, List.nodup_append]
      refine ⟨hbeans.nodup, by simp, fun s hs s' hs' => ?_⟩
      obtain ⟨b', hb', rfl⟩ := List.mem_map.mp hs
      rw [List.map_singleton, List.mem_singleton] at hs'
      rintro heq
      exact hnew (List.any_eq_true.mpr ⟨b', hb', by simp [heq, hs']⟩)

theorem within_shapeOf {fields : List (String × TypeExpr)} (h : ∀ f ∈ fields, f.2.Within voc) :
    ∀ t ∈ shapeOf fields, t.Within voc := by
  unfold shapeOf
  split
  · simp
  · simpa using h

theorem within_intersect {types : List TypeExpr} (h : ∀ t ∈ types, t.Within voc) :
    (intersect types).Within voc := by
  unfold intersect
  split
  · simpa using h
  · exact TypeExpr.within_intersection.mpr h

/-- Whether the beans among query parameters are declared. -/
def BeansDeclared (table : SymbolTable) (beans : List DataDeclaration) (params : List QueryParam) :
    Prop :=
  ∀ bean, .bean bean ∈ params → ∃ b ∈ beans, b.symbol = beanSymbol table bean

theorem yields_queryTypes (hendpoint : endpoint ∈ service.application.methods)
    (params : List QueryParam) (hparams : params ⊆ endpoint.queryParams)
    (singles : List (String × TypeExpr)) :
    ServiceWork.Yields lo hi (service.AreBeans hi) final
      (service.queryTypes endpoint singles params)
      fun types => types = service.queryTypesImage hi singles params ∧
        BeansDeclared hi final params := by
  induction params generalizing singles with
  | nil => exact .pure ⟨rfl, fun _ hbean => absurd hbean List.not_mem_nil⟩
  | cons param rest ih =>
    obtain ⟨hparam, hrest⟩ := List.cons_subset.mp hparams
    cases param with
    | single param =>
      refine .bind (.lift (yields_typeOf endpoint param.type)) fun type =>
        (ih hrest _).mono ?_
      rintro _ ⟨rfl, hbeans⟩ rfl
      refine ⟨rfl, fun bean hbean => hbeans bean ?_⟩
      exact (List.mem_cons.mp hbean).resolve_left nofun
    | bean bean =>
      refine .bind (yields_queryBean hendpoint hparam) fun symbol =>
        .bind (ih hrest []) fun types => .pure ?_
      rintro ⟨rfl, hbeans⟩ ⟨rfl, hdeclared⟩
      refine ⟨rfl, fun bean' hbean => ?_⟩
      rcases List.mem_cons.mp hbean with heq | hbean
      · obtain rfl := QueryParam.bean.inj heq
        exact hdeclared
      · exact hbeans bean' hbean

/-- The types of query parameters mention what the parameters mention, and beans. -/
theorem within_queryTypesImage (hvoc : service.Fits hi final voc) (params : List QueryParam)
    (hbeans : BeansDeclared hi final params) (hbinds : voc.Binds (params.flatMap (·.sourceTypes)))
    (singles : List (String × TypeExpr)) (hsingles : ∀ f ∈ singles, f.2.Within voc) :
    ∀ t ∈ service.queryTypesImage hi singles params, t.Within voc := by
  induction params generalizing singles with
  | nil => exact within_shapeOf hsingles
  | cons param rest ih =>
    obtain ⟨hbinds, hbinds'⟩ := List.forall_mem_append.mp hbinds
    have hrest := ih (fun bean hbean => hbeans bean (List.mem_cons_of_mem _ hbean)) hbinds'
    cases param with
    | single param =>
      refine hrest _ ?_
      rw [List.forall_mem_append, List.forall_mem_singleton]
      exact ⟨hsingles, TypeExpr.within_orAbsent.mpr (within_typeImage hvoc.mapped hbinds)⟩
    | bean bean =>
      obtain ⟨b, hb, hsymbol⟩ := hbeans bean List.mem_cons_self
      rw [queryTypesImage, List.forall_mem_append, List.forall_mem_cons]
      refine ⟨within_shapeOf hsingles, ?_, hrest [] (by simp)⟩
      exact TypeExpr.within_reference.mpr ⟨hsymbol ▸ hvoc.bean b hb, by simp⟩

theorem yields_queryParameters (hendpoint : endpoint ∈ service.application.methods) :
    ServiceWork.Yields lo hi (service.AreBeans hi) final (service.queryParameters endpoint)
      fun parameters => parameters = service.queryImage hi endpoint ∧
        BeansDeclared hi final endpoint.queryParams := by
  unfold queryParameters queryImage
  split
  case isTrue hnone =>
    rw [List.isEmpty_iff.mp hnone]
    exact .pure ⟨rfl, fun _ hbean => absurd hbean List.not_mem_nil⟩
  case isFalse =>
    have htype : ServiceWork.Yields lo hi (service.AreBeans hi) final (service.queryType endpoint)
        fun type => type = intersect (service.queryTypesImage hi [] endpoint.queryParams) ∧
          BeansDeclared hi final endpoint.queryParams :=
      .map ((yields_queryTypes hendpoint _ (List.Subset.refl _) []).mono fun _ h =>
        ⟨congrArg intersect h.1, h.2⟩)
    refine .bind htype fun type => .pure ?_
    rintro ⟨rfl, hbeans⟩
    exact ⟨rfl, hbeans⟩

/-! ## Methods -/

theorem yields_pathParameter (endpoint : Endpoint) (param : EndpointParam) :
    Work.Yields lo hi (service.pathParameter endpoint param)
      (· = { name := Identifier.repair param.name, type := service.typeImage hi param.type }) :=
  .bind (yields_typeOf endpoint param.type) fun _ => .pure fun h => h ▸ rfl

theorem yields_bodyParameter (endpoint : Endpoint) (param : EndpointParam) :
    Work.Yields lo hi (service.bodyParameter endpoint param)
      (· = { name := param.name, type := service.typeImage hi param.type }) :=
  .bind (yields_typeOf endpoint param.type) fun _ => .pure fun h => h ▸ rfl

theorem within_optionsType? (h : ∀ v ∈ service.typeParameters, voc.var v) :
    ∀ t ∈ service.optionsType?, t.Within voc := by
  intro t ht
  obtain ⟨options, hoptions, rfl⟩ := Option.map_eq_some_iff.mp ht
  split
  case isTrue hgeneric =>
    refine TypeExpr.within_var.mpr (h options ?_)
    simp [typeParameters, hgeneric, hoptions]
  case isFalse => exact TypeExpr.within_verbatim

theorem yields_parameters (hendpoint : endpoint ∈ service.application.methods) :
    ServiceWork.Yields lo hi (service.AreBeans hi) final (service.parameters endpoint)
      fun parameters => parameters = service.parametersImage hi endpoint ∧
        BeansDeclared hi final endpoint.queryParams := by
  refine .bind (.mapM fun param _ => .lift (yields_pathParameter endpoint param)) fun path =>
    .bind (.mapM fun param _ => .lift (yields_bodyParameter endpoint param)) fun body =>
      .bind (yields_queryParameters hendpoint) fun query => .pure ?_
  rintro ⟨rfl, hbeans⟩ hbody hpath
  have hpath' := map_eq_map_of_forall₂ (g := id) hpath fun _ _ h => h.symm
  have hbody' := map_eq_map_of_forall₂ (g := id) hbody fun _ _ h => h.symm
  rw [List.map_id] at hpath' hbody'
  rw [parametersImage, valuesImage, hpath', hbody']
  exact ⟨rfl, hbeans⟩

/-- The parameters of an endpoint mention what its types mention, and beans. -/
theorem within_parametersImage (hvoc : service.Fits hi final voc)
    (hbeans : BeansDeclared hi final endpoint.queryParams)
    (hbinds : voc.Binds endpoint.sourceTypes) :
    ∀ p ∈ service.parametersImage hi endpoint, p.type.Within voc := by
  have htype : ∀ source ∈ endpoint.sourceTypes, (service.typeImage hi source).Within voc :=
    fun source hsource => within_typeImage hvoc.mapped (hbinds.subset (by simpa using hsource))
  simp only [Endpoint.sourceTypes, List.forall_mem_append, List.forall_mem_map] at htype
  simp only [parametersImage, valuesImage, optionsParameters, List.forall_mem_append,
    List.forall_mem_map]
  refine ⟨⟨⟨htype.1.1.1, htype.1.1.2⟩, ?_⟩, fun t ht => ?_⟩
  · unfold queryImage
    split
    · simp
    · rw [List.forall_mem_singleton]
      refine TypeExpr.within_orAbsent.mpr (within_intersect ?_)
      have hquery : endpoint.queryParams.flatMap (·.sourceTypes) ⊆ endpoint.sourceTypes := by
        intro source hsource
        exact List.mem_append_left _ (List.mem_append_right _ hsource)
      exact within_queryTypesImage hvoc _ hbeans (hbinds.subset hquery) [] (by simp)
  · exact TypeExpr.within_orAbsent.mpr (within_optionsType? hvoc.option t (Option.mem_toList.mp ht))

theorem yields_result (endpoint : Endpoint) :
    Work.Yields lo hi (service.result endpoint) (· = service.resultImage hi endpoint) := by
  unfold result resultImage
  split
  case h_1 source hreturn =>
    refine .map ((yields_typeOf endpoint source).mono ?_)
    rintro _ rfl
    rw [hreturn]
    rfl
  case h_2 hreturn =>
    rw [hreturn]
    exact .pure rfl

theorem within_resultImage (hvoc : service.mapper.Covered hi.symbolOf voc)
    (hresponse : voc.symbol service.response 1) (hbinds : voc.Binds endpoint.sourceTypes) :
    (service.resultImage hi endpoint).Within voc := by
  refine TypeExpr.within_reference.mpr ⟨hresponse, ?_⟩
  rw [List.forall_mem_singleton]
  cases hreturn : endpoint.returnType with
  | none => exact TypeExpr.within_primitive.mpr (hvoc.primitive _)
  | some source =>
    exact within_typeImage hvoc (hbinds.subset (by simp [Endpoint.sourceTypes, hreturn]))

/-- Whether a method is that of an endpoint, in a client or in a surface. -/
structure IsMethod (service : Service) (table : SymbolTable) (beans : List DataDeclaration)
    (client : Bool) (endpoint : Endpoint) (m : Method) : Prop where
  body : m.body = if client then some (service.clientBody endpoint) else none
  parameters : m.parameters = service.parametersImage table endpoint
  result : m.result = service.resultImage table endpoint
  within : ∀ voc, service.Fits table beans voc → voc.Binds endpoint.sourceTypes → m.Within voc

theorem yields_method (client shared : Bool) (hendpoint : endpoint ∈ service.application.methods) :
    ServiceWork.Yields lo hi (service.AreBeans hi) final (service.method client shared endpoint)
      (service.IsMethod hi final client endpoint) := by
  refine .bind (yields_parameters hendpoint) fun parameters =>
    .bind (.lift (yields_result endpoint)) fun result => .pure fun hresult hparameters => ?_
  obtain ⟨rfl, hbeans⟩ := hparameters
  obtain rfl := hresult
  refine ⟨rfl, rfl, rfl, fun voc hvoc hbinds => ?_⟩
  have hle := voc.le_binding []
  exact ⟨fun p hp => (within_parametersImage hvoc hbeans hbinds p hp).mono hle,
    (within_resultImage hvoc.mapped hvoc.response hbinds).mono hle⟩

/-- The methods of a group are those of its endpoints. -/
theorem yields_groupMethods (client : Bool) {group : EndpointGroup}
    (hgroup : group.endpoints ⊆ service.application.methods) :
    ServiceWork.Yields lo hi (service.AreBeans hi) final (service.groupMethods client group)
      (List.Forall₂ (service.IsMethod hi final client) group.endpoints) :=
  .mapM fun _ hendpoint => yields_method client _ (hgroup hendpoint)

/-- The address of a request encodes its parameters. -/
theorem within_address (endpoint : Endpoint) {voc : CodeVocabulary}
    (hvoc : ∀ name ∈ Helper.uriEncoding.functions, voc.callable name) :
    (service.address endpoint).Within voc := by
  refine Expression.within_template.mpr ⟨fun name hname => ?_, Expression.within_identifier, ?_⟩
  · obtain rfl := Option.some.inj hname
    exact hvoc _ (by decide)
  · intro e he
    obtain ⟨part, hpart, hvalue⟩ := List.mem_filterMap.mp he
    obtain ⟨source, -, rfl⟩ := List.mem_map.mp hpart
    cases source with
    | literal text => exact nomatch hvalue
    | parameter name pattern =>
      obtain rfl := Option.some.inj hvalue
      exact Expression.within_identifier

/-- The code of a client encodes addresses and mentions no types. -/
theorem IsMethod.codeWithin {client : Bool} {m : Method} {voc : CodeVocabulary}
    (h : service.IsMethod hi final client endpoint m)
    (hvoc : client = true → ∀ name ∈ Helper.uriEncoding.functions, voc.callable name) :
    m.CodeWithin voc := by
  rw [Method.CodeWithin, h.body]
  cases client with
  | false => exact statementsWithin_nil
  | true =>
    have haddress : (service.address endpoint).Within voc := within_address endpoint (hvoc rfl)
    have hentries : ∀ e ∈ (service.requestEntries endpoint).filterMap (·.2), e.Within voc := by
      simp only [requestEntries, List.filterMap_append, List.forall_mem_append]
      refine ⟨⟨⟨by simpa using haddress, ?_⟩, by simp⟩, ?_⟩
      · split <;> simp
      · split <;> simp
    simpa [clientBody, Statement.expressions, Expression.name?] using hentries

end Service

end Typings
