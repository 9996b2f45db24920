import Mathlib.Data.Prod.Basic
import Typings.Proofs.Simulation.Building
import Typings.Service.Declarations

/-!
# Services declared in two runs

The endpoints of an application are compiled in the same order in both runs. Their declarations are
therefore the same up to the symbols, in the same order.

## Main definitions

* `ServiceWork.Sim`: two pieces of work on endpoints declare beans alike and return related values.
* `Service.counterpart`: what the second run compiles endpoints with.

## Main results

* `Service.sim_declarations`: the declarations of all groups.
-/

namespace Typings

open Work

/-! ## Work that declares beans -/

namespace ServiceWork

variable {α β α' β' : Type}

/-- From beans and from the renamed beans, two pieces of work return related values and lead to
beans that are the renamed ones again. -/
structure Sim (c : Correspondence) (R : α → α' → Prop) (work : ServiceWork α)
    (work' : ServiceWork α') : Prop where
  grows' (beans : List DataDeclaration) : (work'.run beans).Grows
  runs (beans : List DataDeclaration) :
    Work.Sim c (fun r r' => R r.1 r'.1 ∧ r.2.map (DataDeclaration.rename c.symbols) = r'.2)
      (work.run beans) (work'.run (beans.map (DataDeclaration.rename c.symbols)))

namespace Sim

variable {c : Correspondence} {R : α → α' → Prop} {Q : β → β' → Prop} {work : ServiceWork α}
  {work' : ServiceWork α'} {next : α → ServiceWork β} {next' : α' → ServiceWork β'}

theorem pure {a : α} {a' : α'} (h : R a a') :
    Sim c R (pure a : ServiceWork α) (pure a' : ServiceWork α') where
  grows' beans := .pure (a', beans)
  runs _ := .pure ⟨h, rfl⟩

theorem bind_of_grows (first : Sim c R work work') (hgrows : ∀ a beans, ((next a).run beans).Grows)
    (hgrows' : ∀ a beans, ((next' a).run beans).Grows)
    (rest : ∀ a a', R a a' → Sim c Q (next a) (next' a')) :
    Sim c Q (work >>= next) (work' >>= next') where
  grows' beans := .bind (first.grows' beans) fun r => hgrows' r.1 r.2
  runs beans := by
    refine (first.runs beans).bind_of_grows (fun r => hgrows r.1 r.2) (fun r => hgrows' r.1 r.2) ?_
    rintro ⟨a, beans⟩ ⟨a', _⟩ ⟨hrel, rfl⟩
    exact (rest a a' hrel).runs beans

theorem bind {g : α → α'} (hg : g.Surjective) (first : Sim c (g · = ·) work work')
    (rest : ∀ a, Sim c Q (next a) (next' (g a))) : Sim c Q (work >>= next) (work' >>= next') := by
  refine first.bind_of_grows (fun a beans => ((rest a).runs beans).grows) (fun a' beans => ?_) ?_
  · obtain ⟨a, rfl⟩ := hg a'
    exact (rest a).grows' beans
  · rintro a _ rfl
    exact rest a

theorem bind_pure {k : α → β} {k' : α' → β'} (first : Sim c R work work')
    (hk : ∀ a a', R a a' → Q (k a) (k' a')) :
    Sim c Q (work >>= fun a => Pure.pure (k a)) (work' >>= fun a' => Pure.pure (k' a')) :=
  first.bind_of_grows (fun a beans => .pure (k a, beans)) (fun a' beans => .pure (k' a', beans))
    fun a a' hrel => .pure (hk a a' hrel)

/-- Work on the session alone leaves the beans as they are. -/
theorem lift {work : Work α} {work' : Work α'} (h : Work.Sim c R work work') :
    Sim c R (liftM work : ServiceWork α) (liftM work' : ServiceWork α') where
  grows' beans := .bind h.grows' fun a => .pure (a, beans)
  runs beans := by
    show Work.Sim c _ (work >>= fun a => Pure.pure (a, beans)) (work' >>= fun a => Pure.pure (a, _))
    exact h.bind_pure fun _ _ hrel => ⟨hrel, rfl⟩

theorem mapM {γ : Type} {f : γ → ServiceWork β} {f' : γ → ServiceWork β'} {g : β → β'}
    {entries : List γ} (h : ∀ a ∈ entries, Sim c (g · = ·) (f a) (f' a)) :
    Sim c (List.map g · = ·) (entries.mapM f) (entries.mapM f') := by
  induction entries with
  | nil => exact .pure rfl
  | cons a entries ih =>
    rw [List.mapM_cons, List.mapM_cons]
    obtain ⟨hfirst, hrest⟩ := List.forall_mem_cons.mp h
    have hentries := ih hrest
    refine hfirst.bind_of_grows ?_ ?_ ?_
    · exact fun b beans => .bind (hentries.runs beans).grows fun r => .pure (b :: r.1, r.2)
    · exact fun b beans => .bind (hentries.grows' beans) fun r => .pure (b :: r.1, r.2)
    · rintro b _ rfl
      refine hentries.bind_pure ?_
      rintro bs _ rfl
      rfl

end Sim

end ServiceWork

theorem Parameter.rename_surjective {f : Symbol → Symbol} (hf : f.Surjective) :
    (Parameter.rename f).Surjective := by
  intro p
  obtain ⟨t, ht⟩ := TypeExpr.rename_surjective hf p.type
  exact ⟨{ p with type := t }, by rw [Parameter.rename, ht]⟩

theorem Correspondence.parameters_surjective (c : Correspondence) :
    (List.map (Parameter.rename c.symbols)).Surjective :=
  List.map_surjective_iff.mpr (Parameter.rename_surjective c.symbols.surjective)

namespace Service

/-- What the second run compiles endpoints with: the same application and settings, its own mapper
and its own symbol for responses. -/
def counterpart (c : Correspondence) (mapper' : Mapper) (service : Service) : Service :=
  { service with
    mapper := mapper'
    response := c.symbols service.response }

variable {f : Symbol → Symbol} {service : Service}

/-! ## Renaming -/

theorem rename_refer (s : Symbol) : (service.refer s).rename f = service.refer (f s) := by
  simp [refer, Function.comp_def]

theorem rename_optionsType {t : TypeExpr} (ht : t ∈ service.optionsType?.toList) :
    t.rename f = t := by
  obtain ⟨options, -, rfl⟩ := Option.map_eq_some_iff.mp (Option.mem_toList.mp ht)
  split <;> simp

theorem map_rename_shapeOf (fields : List (String × TypeExpr)) :
    (shapeOf fields).map (TypeExpr.rename f) =
      shapeOf (fields.map fun field => (field.1, field.2.rename f)) := by
  cases fields <;> simp [shapeOf]

theorem rename_intersect (types : List TypeExpr) :
    (intersect types).rename f = intersect (types.map (TypeExpr.rename f)) := by
  rcases types with _ | ⟨first, _ | ⟨second, rest⟩⟩ <;> simp [intersect]

theorem renameParts_addressPart (parts : List PathPart) :
    Expression.renameParts f (parts.map addressPart) = parts.map addressPart := by
  induction parts with
  | nil => rfl
  | cons part rest ih =>
    cases part <;> simp [addressPart, Expression.renameParts, Expression.rename, ih]

/-- The code of a client mentions no declarations. -/
theorem map_rename_clientBody (endpoint : Endpoint) :
    (service.clientBody endpoint).map (Statement.rename f) = service.clientBody endpoint := by
  have haddress : (service.address endpoint).rename f = service.address endpoint := by
    rw [address, Expression.rename, renameParts_addressPart, Expression.rename]
  have hentries : Expression.renameEntries f (service.requestEntries endpoint) =
      service.requestEntries endpoint := by
    rw [Expression.renameEntries_eq_map]
    simp only [requestEntries, List.map_append, List.map_cons, List.map_nil, Option.map_some,
      haddress]
    congr 2
    · congr 1
      split <;> simp [Expression.rename]
    · simp [Function.comp_def, Expression.rename]
    · split <;> simp [Expression.rename]
  simp only [clientBody, List.map_cons, List.map_nil, Statement.rename, Option.map_some,
    Expression.apply, Expression.rename, Expression.renameAll, hentries]

/-! ## Types -/

variable {c : Correspondence} {mapper' : Mapper} (h : service.mapper.Alike mapper')
  (endpoint : Endpoint)

include h

theorem sim_typeOf (source : SourceType) :
    Work.Sim c (TypeExpr.rename c.symbols · = ·) (service.typeOf endpoint source)
      ((service.counterpart c mapper').typeOf endpoint source) := by
  refine .bind (Except.map_surjective c.type_surjective) (Mapper.sim_map h source) fun mapped => ?_
  rcases mapped with e | type
  · exact .after_quiet (quiet_warn _) (quiet_warn _) (.pure TypeExpr.rename_any)
  · exact .pure rfl

theorem sim_beanProperty (p : SourceProperty) :
    Work.Sim c (Property.rename c.symbols · = ·) (service.beanProperty endpoint p)
      ((service.counterpart c mapper').beanProperty endpoint p) := by
  refine .bind_pure (sim_typeOf h endpoint p.type) ?_
  rintro type _ rfl
  rw [Property.rename]
  dsimp only
  split <;> simp

theorem sim_beanDeclaration (bean : SourceClass) (symbol : Symbol) :
    Work.Sim c (DataDeclaration.rename c.symbols · = ·)
      (service.beanDeclaration endpoint bean symbol)
      ((service.counterpart c mapper').beanDeclaration endpoint bean (c.symbols symbol)) := by
  refine .bind c.properties_surjective
    (.mapM fun p _ => sim_beanProperty h endpoint p) fun properties => ?_
  exact .after_quiet (quiet_report _ _ _) (quiet_report _ _ _) (.pure rfl)

omit h in
theorem any_symbol_rename (beans : List DataDeclaration) (s : Symbol) :
    (beans.map (DataDeclaration.rename c.symbols)).any (·.symbol == c.symbols s) =
      beans.any (·.symbol == s) := by
  rw [List.any_map]
  refine congrArg beans.any (funext fun b => ?_)
  exact Bool.eq_iff_iff.mpr (by simp [DataDeclaration.rename])

/-- A query bean is declared in both runs or in neither. -/
theorem sim_queryBean (bean : SourceClass) :
    ServiceWork.Sim c (c.symbols · = ·) (service.queryBean endpoint bean)
      ((service.counterpart c mapper').queryBean endpoint bean) := by
  refine .bind c.symbols.surjective (.lift (sim_symbol (.entity bean.name "QueryParams")))
    fun symbol => ?_
  have hbean := sim_beanDeclaration (c := c) h endpoint bean symbol
  constructor
  · intro beans
    show ((if beans.any (·.symbol == c.symbols symbol) then _ else _ : ServiceWork Symbol).run
      beans).Grows
    split
    · exact .pure _
    · exact .bind hbean.grows' fun declared => .pure (c.symbols symbol, beans ++ [declared])
  · intro beans
    show Work.Sim c _ ((if beans.any (·.symbol == symbol) then _ else _ :
      ServiceWork Symbol).run beans)
      ((if (beans.map (DataDeclaration.rename c.symbols)).any (·.symbol == c.symbols symbol) then _
        else _ : ServiceWork Symbol).run _)
    rw [any_symbol_rename]
    split
    · exact .pure ⟨rfl, rfl⟩
    · show Work.Sim c _ (service.beanDeclaration endpoint bean symbol >>= fun declared =>
        pure (symbol, beans ++ [declared]))
        ((service.counterpart c mapper').beanDeclaration endpoint bean (c.symbols symbol) >>=
          fun declared => pure
            (c.symbols symbol, beans.map (DataDeclaration.rename c.symbols) ++ [declared]))
      refine hbean.bind_pure ?_
      rintro declared _ rfl
      exact ⟨rfl, List.map_append⟩

theorem sim_queryTypes (params : List QueryParam)
    (singles : List (String × TypeExpr)) :
    ServiceWork.Sim c (List.map (TypeExpr.rename c.symbols) · = ·)
      (service.queryTypes endpoint singles params)
      ((service.counterpart c mapper').queryTypes endpoint
        (singles.map fun field => (field.1, field.2.rename c.symbols)) params) := by
  induction params generalizing singles with
  | nil => exact .pure (map_rename_shapeOf singles)
  | cons param rest ih =>
    cases param with
    | single param =>
      refine .bind c.type_surjective
        (.lift (sim_typeOf h endpoint param.type)) fun type => ?_
      have hsingles := ih (singles ++ [(param.name, type.orAbsent)])
      rwa [List.map_append, List.map_singleton, TypeExpr.rename_orAbsent] at hsingles
    | bean bean =>
      refine .bind c.symbols.surjective (sim_queryBean h endpoint bean) fun symbol =>
        .bind_pure (ih []) ?_
      rintro types _ rfl
      rw [List.map_append, List.map_cons, map_rename_shapeOf, TypeExpr.rename_reference,
        List.map_nil]

theorem sim_queryParameters :
    ServiceWork.Sim c (List.map (Parameter.rename c.symbols) · = ·)
      (service.queryParameters endpoint)
      ((service.counterpart c mapper').queryParameters endpoint) := by
  unfold queryParameters
  split
  · exact .pure rfl
  · have htype : ServiceWork.Sim c (TypeExpr.rename c.symbols · = ·) (service.queryType endpoint)
        ((service.counterpart c mapper').queryType endpoint) := by
      refine .bind_pure (sim_queryTypes h endpoint endpoint.queryParams []) ?_
      rintro types _ rfl
      exact rename_intersect types
    refine .bind_pure htype ?_
    rintro type _ rfl
    simp [Parameter.rename]

theorem sim_pathParameter (param : EndpointParam) :
    Work.Sim c (Parameter.rename c.symbols · = ·) (service.pathParameter endpoint param)
      ((service.counterpart c mapper').pathParameter endpoint param) := by
  refine .bind_pure (sim_typeOf h endpoint param.type) ?_
  rintro type _ rfl
  rfl

theorem sim_bodyParameter (param : EndpointParam) :
    Work.Sim c (Parameter.rename c.symbols · = ·) (service.bodyParameter endpoint param)
      ((service.counterpart c mapper').bodyParameter endpoint param) := by
  refine .bind_pure (sim_typeOf h endpoint param.type) ?_
  rintro type _ rfl
  rfl

/-! ## Methods -/

theorem sim_parameters :
    ServiceWork.Sim c (List.map (Parameter.rename c.symbols) · = ·) (service.parameters endpoint)
      ((service.counterpart c mapper').parameters endpoint) := by
  refine .bind c.parameters_surjective
    (.mapM fun param _ => .lift (sim_pathParameter h endpoint param)) fun path => ?_
  refine .bind c.parameters_surjective
    (.mapM fun param _ => .lift (sim_bodyParameter h endpoint param)) fun body => ?_
  refine .bind_pure (sim_queryParameters h endpoint) ?_
  rintro query _ rfl
  rw [List.map_append, List.map_append, List.map_append, List.map_map]
  refine congrArg _ (List.map_congr_left fun type htype => ?_)
  rw [Function.comp_apply, Parameter.rename, TypeExpr.rename_orAbsent, rename_optionsType htype]

theorem sim_result :
    Work.Sim c (TypeExpr.rename c.symbols · = ·) (service.result endpoint)
      ((service.counterpart c mapper').result endpoint) := by
  unfold result
  cases endpoint.returnType with
  | none => exact .pure (by simp [responseOf, counterpart])
  | some source =>
    refine .bind_pure (sim_typeOf h endpoint source) ?_
    rintro type _ rfl
    simp [responseOf, counterpart]

theorem sim_method (client shared : Bool) (endpoint : Endpoint) :
    ServiceWork.Sim c (Method.rename c.symbols · = ·) (service.method client shared endpoint)
      ((service.counterpart c mapper').method client shared endpoint) := by
  refine .bind c.parameters_surjective
    (sim_parameters h endpoint) fun parameters => .bind_pure (.lift (sim_result h endpoint)) ?_
  rintro result _ rfl
  cases client with
  | false => rfl
  | true =>
    simp only [Method.rename, if_true, Option.map_some, map_rename_clientBody]
    rfl

theorem sim_groupMethods (client : Bool) (group : EndpointGroup) :
    ServiceWork.Sim c (List.map (Method.rename c.symbols) · = ·) (service.groupMethods client group)
      ((service.counterpart c mapper').groupMethods client group) :=
  .mapM fun endpoint _ => sim_method h client _ endpoint

/-! ## Declarations -/

theorem sim_surface (group : EndpointGroup) :
    ServiceWork.Sim c (DataDeclaration.rename c.symbols · = ·) (service.surface group)
      ((service.counterpart c mapper').surface group) := by
  refine .bind c.symbols.surjective (.lift (sim_symbol (group.key.origin ""))) fun symbol =>
    .bind_pure (sim_groupMethods h false group) ?_
  rintro methods _ rfl
  rfl

omit h in
theorem sim_httpClient :
    Work.Sim c (DataDeclaration.rename c.symbols · = ·) service.httpClient
      (service.counterpart c mapper').httpClient := by
  refine .bind_pure (sim_symbol (.synthetic "HttpClient")) ?_
  rintro symbol _ rfl
  have hfields : (service.requestFields.map fun field => (field.1, field.2.rename c.symbols)) =
      service.requestFields := by
    rw [requestFields, List.map_append, List.map_map]
    refine congr (congrArg _ (by simp)) (List.map_congr_left fun type htype => ?_)
    rw [Function.comp_apply, TypeExpr.rename_orAbsent, rename_optionsType htype]
  simp only [DataDeclaration.rename, Method.rename, Parameter.rename, List.map_cons, List.map_nil,
    TypeExpr.rename_shape, hfields, Option.map_none, responseOf, TypeExpr.rename_reference,
    TypeExpr.rename_var]
  rfl

omit h in
/-- The client of a group is named after its surface or after the group, which comes to the same. -/
theorem sim_clientSymbol (group : EndpointGroup) :
    Work.Sim c (Prod.map c.symbols (List.map (TypeExpr.rename c.symbols)) · = ·)
      (service.clientSymbol group) ((service.counterpart c mapper').clientSymbol group) := by
  have hsettings : (service.counterpart c mapper').settings = service.settings := rfl
  unfold clientSymbol
  rw [hsettings]
  split
  · rw [symbol_bind_suffixedSymbol, symbol_bind_suffixedSymbol]
    refine .bind c.symbols.surjective (sim_symbol (group.key.origin "")) fun surface =>
      .bind_pure (sim_symbol _) ?_
    rintro symbol _ rfl
    simp [Prod.map, rename_refer]
    rfl
  · refine .bind_pure (sim_symbol (group.key.origin "Client")) ?_
    rintro symbol _ rfl
    rfl

theorem sim_client (httpClient : Symbol) (group : EndpointGroup) :
    ServiceWork.Sim c (DataDeclaration.rename c.symbols · = ·) (service.client httpClient group)
      ((service.counterpart c mapper').client (c.symbols httpClient) group) := by
  refine .bind (Function.Surjective.prodMap c.symbols.surjective c.types_surjective)
    (.lift (sim_clientSymbol group)) fun ⟨symbol, interfaces⟩ =>
      .bind_pure (sim_groupMethods h true group) ?_
  rintro methods _ rfl
  simp only [DataDeclaration.rename, Constructor.rename, ConstructorParameter.rename,
    Option.map_some, List.map_cons, List.map_nil, rename_refer]
  rfl

theorem sim_surfaces (groups : List EndpointGroup) :
    ServiceWork.Sim c (List.map (DataDeclaration.rename c.symbols) · = ·) (service.surfaces groups)
      ((service.counterpart c mapper').surfaces groups) := by
  have hsettings : (service.counterpart c mapper').settings = service.settings := rfl
  unfold surfaces
  rw [hsettings]
  split
  · exact .mapM fun group _ => sim_surface h group
  · exact .pure rfl

theorem sim_clients (groups : List EndpointGroup) :
    ServiceWork.Sim c (List.map (DataDeclaration.rename c.symbols) · = ·) (service.clients groups)
      ((service.counterpart c mapper').clients groups) := by
  have hsettings : (service.counterpart c mapper').settings = service.settings := rfl
  have hclients : ∀ httpClient : Symbol, ServiceWork.Sim c
      (List.map (DataDeclaration.rename c.symbols) · = ·) (groups.mapM (service.client httpClient))
      (groups.mapM ((service.counterpart c mapper').client (c.symbols httpClient))) :=
    fun httpClient => .mapM fun group _ => sim_client h httpClient group
  unfold clients
  rw [hsettings]
  split
  · refine .bind_of_grows (.lift sim_httpClient) ?_ ?_ ?_
    · exact fun httpClient beans =>
        .bind ((hclients httpClient.symbol).runs beans).grows fun r =>
          .pure (httpClient :: r.1, r.2)
    · intro httpClient beans
      obtain ⟨symbol, hsymbol⟩ := c.symbols.surjective httpClient.symbol
      refine .bind (hsymbol ▸ (hclients symbol).grows' beans) fun r =>
        .pure (httpClient :: r.1, r.2)
    · rintro httpClient _ rfl
      refine .bind_pure (hclients httpClient.symbol) ?_
      rintro clients _ rfl
      rfl
  · exact .pure rfl

/-- The declarations of all groups are the same in both runs, with the symbols renamed. -/
theorem sim_declarations (groups : List EndpointGroup) :
    ServiceWork.Sim c (List.map (DataDeclaration.rename c.symbols) · = ·)
      (service.declarations groups) ((service.counterpart c mapper').declarations groups) := by
  have hclients := sim_clients (c := c) h groups
  refine (sim_surfaces h groups).bind_of_grows ?_ ?_ ?_
  · exact fun surfaces beans => .bind (hclients.runs beans).grows fun r =>
      .pure (surfaces ++ r.1, r.2)
  · exact fun surfaces beans => .bind (hclients.grows' beans) fun r => .pure (surfaces ++ r.1, r.2)
  · rintro surfaces _ rfl
    refine hclients.bind_pure ?_
    rintro clients _ rfl
    exact List.map_append

end Service

end Typings
