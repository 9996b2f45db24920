import Typings.Proofs.Model.Choices
import Typings.Proofs.Type.Unnested
import Typings.Proofs.UniformRepresentation

/-!
# Optional types are not nested

Types become optional where they are mapped, as properties, as query parameters and in services, and
each of these leaves a type that is optional as it is. Later steps rebuild types, and none of them
makes a type optional that was not. So the types of compiled declarations have no optional type in
them that is made optional again.

## Main definitions

* `DataDeclaration.Unnested`, `Model.Unnested`: the types of the members of a declaration, and of a
  model.

## Main results

* `Mapper.unnested_image`: mapped types are unnested.
* `Service.IsDeclared.unnested`, `Service.Declares.unnested`: so are the types in services.
* `Compilation.unnested_united`, `Compilation.unnested_served`, `Compilation.unnested_final`: so are
  the types of members at each stage of a compilation.
* `compile_unnested`: so are all types of compiled declarations.
-/

namespace Typings

/-! ## Mapped types -/

namespace Mapper

variable {mapper : Mapper} {symbolOf : String → Symbol}

theorem keeps_unnested (mapper : Mapper) (symbolOf : String → Symbol) :
    mapper.Keeps symbolOf TypeExpr.Unnested where
  any := TypeExpr.unnested_any
  verbatim _ := TypeExpr.unnested_verbatim
  primitive _ := TypeExpr.unnested_primitive
  orAbsent _ ht := ht.orAbsent
  array _ ht := TypeExpr.unnested_array.mpr ht
  stringMap _ ht := TypeExpr.unnested_indexed.mpr ⟨TypeExpr.unnested_primitive, ht⟩
  union _ hts := TypeExpr.unnested_union.mpr hts
  reference _ _ _ hargs := TypeExpr.unnested_reference.mpr hargs

/-- A nullable type is optional once, also behind wrappers. -/
theorem unnested_image (source : SourceType) {t : TypeExpr}
    (h : mapper.image symbolOf source = .ok t) : t.Unnested :=
  (mapper.keeps_unnested symbolOf).holds_image source (fun _ _ => TypeExpr.unnested_var) h

/-- A type that is not recognised stands for anything. -/
theorem unnested_image_getD (mapper : Mapper) (symbolOf : String → Symbol) (source : SourceType) :
    ((mapper.image symbolOf source).toOption.getD .any).Unnested := by
  cases h : mapper.image symbolOf source with
  | error e => exact TypeExpr.unnested_any
  | ok t => exact unnested_image source h

end Mapper

namespace Builder

variable {builder : Builder} {symbolOf : String → Symbol}

theorem unnested_propertyType (p : SourceProperty) :
    (builder.propertyType symbolOf p).Unnested := by
  have himage := builder.mapper.unnested_image_getD symbolOf p.type
  unfold propertyType
  dsimp only
  split
  · exact himage.orAbsent
  · exact himage

theorem unnested_discriminantType (c : SourceClass) : (builder.discriminantType c).Unnested := by
  unfold discriminantType
  split
  · exact TypeExpr.unnested_primitive
  · exact TypeExpr.unnested_literalUnion _

end Builder

/-! ## Declarations -/

/-- Whether the types of parameters and of the result are unnested. -/
structure Method.Unnested (m : Method) : Prop where
  parameters : ∀ p ∈ m.parameters, p.type.Unnested
  result : m.result.Unnested

/-- Whether the types of properties, methods and the constructor are unnested. -/
structure DataDeclaration.Unnested (d : DataDeclaration) : Prop where
  properties : ∀ p ∈ d.properties, p.type.Unnested
  methods : ∀ m ∈ d.methods, m.Unnested
  ctor : ∀ c ∈ d.ctor, ∀ p ∈ c.parameters, p.type.Unnested

/-- Whether the types of all members of a model are unnested. -/
def Model.Unnested (model : Model) : Prop :=
  ∀ d ∈ model.data, d.Unnested

namespace DataDeclaration.Unnested

variable {d : DataDeclaration} {f : TypeExpr → TypeExpr}

theorem types (h : d.Unnested) : ∀ t ∈ d.types, t.Unnested := by
  intro t ht
  rcases mem_types.mp ht with ⟨p, hp, rfl⟩ | ⟨m, hm, ⟨p, hp, rfl⟩ | rfl⟩ | ⟨c, hc, p, hp, rfl⟩
  · exact h.properties p hp
  · exact (h.methods m hm).parameters p hp
  · exact (h.methods m hm).result
  · exact h.ctor c hc p hp

theorem mapTypes (h : d.Unnested) (hf : ∀ t : TypeExpr, t.Unnested → (f t).Unnested) :
    (d.mapTypes f).Unnested where
  properties p hp := by
    obtain ⟨q, hq, rfl⟩ := List.mem_map.mp hp
    exact hf _ (h.properties q hq)
  methods m hm := by
    obtain ⟨m', hm', rfl⟩ := List.mem_map.mp hm
    refine ⟨fun p hp => ?_, hf _ (h.methods m' hm').result⟩
    obtain ⟨q, hq, rfl⟩ := List.mem_map.mp hp
    exact hf _ ((h.methods m' hm').parameters q hq)
  ctor c hc p hp := by
    obtain ⟨c', hc', rfl⟩ := Option.map_eq_some_iff.mp hc
    obtain ⟨q, hq, rfl⟩ := List.mem_map.mp hp
    exact hf _ (h.ctor c' hc' q hq)

end DataDeclaration.Unnested

namespace Model

variable {model : Model} {d : DataDeclaration}

theorem unnested_constructorParameters : ∀ p ∈ d.constructorParameters, p.type.Unnested := by
  intro p hp
  obtain ⟨name, -, rfl⟩ := List.mem_map.mp hp
  simp

/-- The functions that revive a class mention its instances, which may be absent. -/
theorem unnested_revivalMethods (h : ∀ m ∈ d.methods, m.Unnested) :
    ∀ m ∈ model.revivalMethods d, m.Unnested := by
  have hself : d.selfType.Unnested := by simp [DataDeclaration.selfType]
  intro m hm
  rcases mem_revivalMethods hm with rfl | rfl | rfl | hm
  · have hcopy : (TypeExpr.function [("data", d.selfType)] d.selfType).Unnested :=
      TypeExpr.unnested_function.mpr ⟨by simpa using hself, hself⟩
    exact ⟨unnested_constructorParameters, hcopy⟩
  · refine ⟨?_, hself⟩
    show ∀ p ∈ (_ :: _ ++ _ : List Parameter), p.type.Unnested
    rw [List.forall_mem_append, List.forall_mem_cons, List.forall_mem_singleton]
    exact ⟨⟨hself, unnested_constructorParameters⟩, hself.orAbsent⟩
  · have htype : ((d.unionAlias.map TypeExpr.bare).getD .any).Unnested := by
      cases d.unionAlias <;> simp
    exact ⟨by simpa [fromDataUnion] using htype, htype⟩
  · exact h m hm

theorem Unnested.withRevival (h : model.Unnested) : model.withRevival.Unnested := by
  intro d' hd'
  obtain ⟨d, hd, rfl | rfl⟩ := mem_withRevival hd'
  · exact h _ hd
  · exact ⟨(h d hd).properties, unnested_revivalMethods (h d hd).methods, (h d hd).ctor⟩

theorem Unnested.withCopyFunctions (h : model.Unnested) (response : Symbol) :
    (model.withCopyFunctions response).Unnested := by
  intro d' hd'
  obtain ⟨d, hd, rfl | rfl⟩ := mem_withCopyFunctions hd'
  · exact h _ hd
  · refine ⟨(h d hd).properties, fun m hm => ?_, (h d hd).ctor⟩
    obtain ⟨m', hm', rfl⟩ := List.mem_map.mp hm
    rw [addCopyFunction_eq]
    exact ⟨((h d hd).methods m' hm').parameters, ((h d hd).methods m' hm').result⟩

theorem Unnested.withOptionalForm (h : model.Unnested) (form : OptionalForm) :
    (model.withOptionalForm form).Unnested := by
  unfold Model.withOptionalForm
  split
  case isTrue => exact h
  case isFalse hform =>
    intro d' hd'
    obtain ⟨d, hd, rfl⟩ := List.mem_map.mp hd'
    split
    case isFalse => exact h d hd
    case isTrue =>
      refine ⟨fun p hp => ?_, (h d hd).methods, (h d hd).ctor⟩
      obtain ⟨q, hq, rfl⟩ := List.mem_map.mp hp
      exact ((h d hd).properties q hq).optionalForm hform

end Model

/-! ## Services -/

namespace Service

variable {service : Service} {table : SymbolTable}

theorem unnested_typeImage (source : SourceType) : (service.typeImage table source).Unnested :=
  service.mapper.unnested_image_getD table.symbolOf source

theorem unnested_optionsType? : ∀ t ∈ service.optionsType?.toList, t.Unnested := by
  intro t ht
  obtain ⟨options, -, rfl⟩ := Option.map_eq_some_iff.mp (Option.mem_toList.mp ht)
  split <;> simp

theorem unnested_shapeOf {fields : List (String × TypeExpr)} (h : ∀ f ∈ fields, f.2.Unnested) :
    ∀ t ∈ shapeOf fields, t.Unnested := by
  unfold shapeOf
  split
  · simp
  · simpa using h

/-- A query parameter is optional once, whatever its type is. -/
theorem unnested_queryTypesImage (params : List QueryParam) (singles : List (String × TypeExpr))
    (h : ∀ f ∈ singles, f.2.Unnested) :
    ∀ t ∈ service.queryTypesImage table singles params, t.Unnested := by
  induction params generalizing singles with
  | nil => exact unnested_shapeOf h
  | cons param rest ih =>
    cases param with
    | single param =>
      refine ih _ ?_
      rw [List.forall_mem_append, List.forall_mem_singleton]
      exact ⟨h, (unnested_typeImage param.type).orAbsent⟩
    | bean bean =>
      rw [queryTypesImage, List.forall_mem_append, List.forall_mem_cons]
      exact ⟨unnested_shapeOf h, by simp, ih [] (by simp)⟩

theorem unnested_intersect {types : List TypeExpr} (h : ∀ t ∈ types, t.Unnested) :
    (intersect types).Unnested := by
  unfold intersect
  split
  · simpa using h
  · exact TypeExpr.unnested_intersection.mpr h

theorem unnested_parametersImage (endpoint : Endpoint) :
    ∀ p ∈ service.parametersImage table endpoint, p.type.Unnested := by
  simp only [parametersImage, valuesImage, optionsParameters, List.forall_mem_append,
    List.forall_mem_map]
  refine ⟨⟨⟨fun _ _ => unnested_typeImage _, fun _ _ => unnested_typeImage _⟩, ?_⟩,
    fun t ht => (unnested_optionsType? t ht).orAbsent⟩
  unfold queryImage
  split
  · simp
  · rw [List.forall_mem_singleton]
    exact (unnested_intersect (unnested_queryTypesImage _ [] (by simp))).orAbsent

theorem unnested_responseOf {content : TypeExpr} (h : content.Unnested) :
    (service.responseOf content).Unnested :=
  TypeExpr.unnested_reference.mpr (by simpa using h)

theorem unnested_resultImage (endpoint : Endpoint) :
    (service.resultImage table endpoint).Unnested := by
  refine unnested_responseOf ?_
  cases endpoint.returnType with
  | none => exact TypeExpr.unnested_primitive
  | some source => exact unnested_typeImage source

theorem IsMethod.unnested {beans : List DataDeclaration} {client : Bool} {endpoint : Endpoint}
    {m : Method} (h : service.IsMethod table beans client endpoint m) : m.Unnested where
  parameters := h.parameters ▸ unnested_parametersImage endpoint
  result := h.result ▸ unnested_resultImage endpoint

theorem unnested_requestFields : ∀ f ∈ service.requestFields, f.2.Unnested := by
  rw [requestFields, List.forall_mem_append, List.forall_mem_map]
  refine ⟨?_, fun t ht => (unnested_optionsType? t ht).orAbsent⟩
  simp [TypeExpr.isOptional]

theorem IsDeclared.unnested {beans : List DataDeclaration} {role : Role} {d : DataDeclaration}
    (h : service.IsDeclared table beans role d) : d.Unnested := by
  have hmethods : ∀ {client : Bool} {group : EndpointGroup} {methods : List Method},
      List.Forall₂ (service.IsMethod table beans client) group.endpoints methods →
        ∀ m ∈ methods, m.Unnested := by
    intro client group methods hrel m hm
    obtain ⟨endpoint, -, hmethod⟩ := exists_mem_of_forall₂ hrel hm
    exact hmethod.unnested
  cases h with
  | surface _ hrel => exact ⟨by simp, hmethods hrel, by simp⟩
  | httpClient =>
    refine ⟨by simp, ?_, by simp⟩
    rw [List.forall_mem_singleton]
    refine ⟨?_, unnested_responseOf TypeExpr.unnested_var⟩
    rw [List.forall_mem_singleton]
    exact TypeExpr.unnested_shape.mpr unnested_requestFields
  | client _ _ _ _ hrel =>
    refine ⟨by simp, hmethods hrel, ?_⟩
    rintro _ ⟨⟩
    simp [refer]

theorem Declares.unnested {bean : SourceClass} {b : DataDeclaration}
    (h : service.Declares table bean b) : b.Unnested := by
  have hproperties : ∀ p ∈ b.properties, p.type.Unnested := by
    rw [h.properties, List.forall_mem_map]
    intro p _
    unfold beanImage
    split
    · exact (unnested_typeImage p.type).orAbsent
    · exact unnested_typeImage p.type
  rw [h.shape]
  exact ⟨hproperties, by simp, by simp⟩

end Service

/-! ## Compilations -/

theorem TypeExpr.Unnested.dated {t : TypeExpr} (h : t.Unnested) (alias? : Option Symbol) :
    (t.dated alias?).Unnested := by
  unfold TypeExpr.dated
  split
  · exact h
  case h_2 symbol =>
    refine h.transform (fun n => ?_) fun n hn => ?_
    · split
      case isTrue htemporal =>
        cases n with
        | optional => cases htemporal
        | _ => rfl
      case isFalse => rfl
    · split
      · simp
      · exact hn

namespace Compilation

variable {builder : Builder} (c : Compilation builder)

theorem unnested_apply {t : TypeExpr} (h : t.Unnested) : (c.choices.apply t).Unnested := by
  unfold Choices.apply
  refine ((h.dated _).replaceBare ?_ ?_).replaceBare ?_ ?_
  · intro s r hr
    obtain ⟨texts, rfl⟩ := c.inlinesLiterals s r hr
    exact TypeExpr.isOptional_literalUnion texts
  · intro s r hr
    obtain ⟨texts, rfl⟩ := c.inlinesLiterals s r hr
    exact TypeExpr.unnested_literalUnion texts
  · intro s r hr
    obtain ⟨union, -, rfl⟩ := Option.map_eq_some_iff.mp hr
    rfl
  · intro s r hr
    obtain ⟨union, -, rfl⟩ := Option.map_eq_some_iff.mp hr
    simp

theorem unnested_united : c.united.Unnested := by
  intro d hd
  obtain ⟨hmethods, hctor⟩ := c.methods_united hd
  refine ⟨fun p hp => ?_, by simp [hmethods], by simp [hctor]⟩
  have hproperties : d.properties ∈ c.united.data.map (·.properties) := List.mem_map_of_mem hd
  rw [c.properties_united] at hproperties
  obtain ⟨d', hd', heq⟩ := List.mem_map.mp hproperties
  rw [← heq] at hp
  obtain ⟨q, hq, rfl⟩ := List.mem_map.mp hp
  refine c.unnested_apply ?_
  obtain ⟨_, -, -, source, -, -, htype | ⟨owner, r, -, -, htype⟩⟩ :=
    c.exists_source_of_mem_properties hd' hq
  · rw [htype]
    exact Builder.unnested_discriminantType source
  · rw [htype]
    exact Builder.unnested_propertyType r

theorem unnested_revived : c.revived.Unnested := by
  unfold revived Model.revive
  split
  · exact c.unnested_united.withRevival
  · exact c.unnested_united

theorem unnested_served : c.served.Unnested := by
  by_cases hnone : builder.graph.rest = none ∨ builder.settings.restCodegen = .neither
  · rw [c.served_eq_revived hnone]
    exact c.unnested_revived
  · obtain ⟨hrest, hmode⟩ := not_or.mp hnone
    obtain ⟨application, hrest⟩ := Option.ne_none_iff_exists'.mp hrest
    obtain ⟨response, extended, declared, beans, aliases, represented, -, hextends, hdata,
        hserved, -⟩ :=
      c.data_served hrest hmode
    have hrepresented : represented.Unnested := by
      intro d hd
      rw [hdata, List.mem_append, List.mem_map] at hd
      rcases hd with hd | ⟨b, hb, rfl⟩
      · exact c.unnested_revived d hd
      · refine DataDeclaration.Unnested.mapTypes ?_ fun t => c.unnested_apply
        rcases List.mem_append.mp hb with hb | hb
        · obtain ⟨role, -, -, hrole⟩ := hextends.exists_role hb
          exact hrole.unnested
        · obtain ⟨_, -, _, -, -, hbean⟩ := hextends.areBeans.each b hb
          exact hbean.unnested
    rcases hserved with hserved | hserved
    · rwa [hserved]
    · rw [hserved]
      exact hrepresented.withCopyFunctions response

theorem unnested_final : c.final.Unnested :=
  c.unnested_served.withOptionalForm _

theorem unnested_supertypes {d : DataDeclaration} (hd : d ∈ c.final.data) :
    ∀ t ∈ d.supertypes, t.Unnested := by
  intro t ht
  rcases c.supertype_cases hd ht with ⟨_, -, -, type, -, himage⟩ | ⟨e, -, rfl⟩
  · exact Mapper.unnested_image type himage
  · simp

theorem AliasKind.unnested {c : Compilation builder} {a : AliasDeclaration} (h : c.AliasKind a) :
    a.definition.Unnested := by
  cases h with
  | date _ _ halias =>
    rcases DateMapping.definition_of_alias? halias with heq | heq
    · simp [heq]
    · simp [heq]
  | literals _ _ _ _ heq => simp [heq]
  | union _ _ _ heq => simp [heq]
  | response _ _ hresponse =>
    rcases hresponse with ⟨text, heq⟩ | ⟨promise, -, heq⟩
    · simp [heq]
    · simp [heq]

end Compilation

/-- No type of a compiled declaration or alias has an optional type in it that is made optional
again. -/
theorem compile_unnested {graph : SourceGraph} {settings : Settings} {out : Compiled}
    (h : compile graph settings = .ok out) :
    (∀ t ∈ out.model.memberTypes, t.Unnested) ∧
      ∀ d ∈ out.model.data, ∀ t ∈ d.supertypes, t.Unnested := by
  obtain ⟨c, -, hmodel, -⟩ := exists_compilation h
  rw [hmodel]
  constructor
  · intro t ht
    rcases (Model.mem_memberTypes_order _ _).mp ht with ⟨d, hd, ht⟩ | ⟨a, ha, rfl⟩
    · exact (c.unnested_final d hd).types t ht
    · exact (c.aliasKind_of_mem_final ha).unnested
  · intro d hd
    obtain ⟨d', hd', rfl⟩ := (c.final.mem_data_order out.names settings.sortMode).mp hd
    rw [SortMode.supertypes_arrange]
    exact c.unnested_supertypes hd'

/-- A class with a property that may be absent for three reasons. -/
def noteGraph : SourceGraph where
  classes :=
    [{ name := "Note"
       properties :=
         [{ name := "text", optional := true
            type := .nullable (.named "Optional" [.named "String" []]) }] }]

/-- Settings that know a type of values that may be absent. -/
def noteSettings : Settings where
  optionalProperties := .questionMarkAndNullable
  knownTypes :=
    { strings := ["String"], numbers := [], booleans := [], dates := [], voids := [], any := [],
      sequences := [], maps := [], optionals := ["Optional"], wrappers := [] }

theorem exists_compile_note : ∃ out, compile noteGraph noteSettings = .ok out :=
  exists_ok_of_isSome (by cbv)

theorem compile_unnested_note : ∃ out, compile noteGraph noteSettings = .ok out ∧
    (∀ t ∈ out.model.memberTypes, t.Unnested) ∧
      ∀ d ∈ out.model.data, ∀ t ∈ d.supertypes, t.Unnested := by
  obtain ⟨out, h⟩ := exists_compile_note
  exact ⟨out, h, compile_unnested h⟩

end Typings
