import Typings.Proofs.Model.Dates
import Typings.Proofs.Warnings
import Typings.Service.Declarations

/-!
# The warnings on services

Groups are settled before any endpoint is compiled, with a warning for each annotation that cannot
name a group. What is compiled afterwards raises warnings about types that are not recognised, and
no other ones, however often an endpoint is compiled.

## Main definitions

* `Work.Warns`, `ServiceWork.WarnsOf`: which warnings work raises.

## Main results

* `Service.warnsOf_declarations`: endpoints raise warnings about their types only.
* `Model.warns_withServices`: the warnings on services, those about groups first.
-/

namespace Typings

namespace Work

variable {α β : Type} {post : List Warning → Prop}

/-- Whether the warnings that work raises satisfy a condition. -/
def Warns (work : Work α) (post : List Warning → Prop) : Prop :=
  ∀ s, ∃ raised, (work.run s).2.warnings = s.warnings ++ raised ∧ post raised

theorem warns_warn (warning : Warning) : Warns (warn warning) (· = [warning]) :=
  fun _ => ⟨[warning], rfl, rfl⟩

namespace Warns

variable {work : Work α}

theorem of_silent (h : Silent work) (hnil : post []) : Warns work post :=
  fun s => ⟨[], by rw [h s, List.append_nil], hnil⟩

theorem bind {next : α → Work β} {P : List Warning → Prop} (first : Warns work P)
    (rest : ∀ a, Warns (next a) fun raised => ∀ earlier, P earlier → post (earlier ++ raised)) :
    Warns (work >>= next) post := by
  intro s
  obtain ⟨earlier, hearlier, hP⟩ := first s
  obtain ⟨raised, hraised, hpost⟩ := rest (work.run s).1 (work.run s).2
  refine ⟨earlier ++ raised, ?_, hpost earlier hP⟩
  rw [← List.append_assoc, ← hearlier]
  exact hraised

theorem bind_silent {next : α → Work β} (first : Silent work) (rest : ∀ a, Warns (next a) post) :
    Warns (work >>= next) post := by
  intro s
  obtain ⟨raised, hraised, hpost⟩ := rest (work.run s).1 (work.run s).2
  rw [first s] at hraised
  exact ⟨raised, hraised, hpost⟩

theorem mono {post' : List Warning → Prop} (h : Warns work post)
    (himp : ∀ raised, post raised → post' raised) : Warns work post' := by
  intro s
  obtain ⟨raised, hraised, hpost⟩ := h s
  exact ⟨raised, hraised, himp raised hpost⟩

end Warns

theorem warns_forM_warn (warnings : List Warning) : Warns (warnings.forM warn) (· = warnings) := by
  induction warnings with
  | nil => exact .of_silent (.pure ()) rfl
  | cons warning rest ih =>
    refine .bind (warns_warn warning) fun _ => ih.mono ?_
    rintro _ rfl _ rfl
    rfl

def WarnsOf (category : WarningCategory) (work : Work α) : Prop :=
  Warns work fun raised => ∀ w ∈ raised, w.category = category

namespace WarnsOf

variable {category : WarningCategory}

theorem of_silent {work : Work α} (h : Silent work) : WarnsOf category work :=
  Warns.of_silent h fun _ hw => absurd hw List.not_mem_nil

theorem bind {work : Work α} {next : α → Work β} (first : WarnsOf category work)
    (rest : ∀ a, WarnsOf category (next a)) : WarnsOf category (work >>= next) :=
  Warns.bind first fun a => (rest a).mono fun _ hraised _ hearlier =>
    List.forall_mem_append.mpr ⟨hearlier, hraised⟩

theorem mapM {f : α → Work β} (h : ∀ a, WarnsOf category (f a)) (as : List α) :
    WarnsOf category (as.mapM f) := by
  induction as with
  | nil => exact .of_silent (.pure [])
  | cons a as ih =>
    rw [List.mapM_cons]
    exact .bind (h a) fun _ => .bind ih fun _ => .of_silent (.pure _)

end WarnsOf

theorem silent_syntheticSymbol (name : String) : Silent (syntheticSymbol name) :=
  silent_symbol _

theorem silent_suffixedSymbol (base : Symbol) (suffix : String) :
    Silent (suffixedSymbol base suffix) :=
  fun s => silent_symbol (s.symbols.suffixedOrigin base suffix) s

end Work

/-! ## Work that declares beans -/

namespace ServiceWork

variable {α β : Type} {category : WarningCategory}

/-- Whether all warnings that work raises are of a category, whatever beans are declared. -/
def WarnsOf (category : WarningCategory) (work : ServiceWork α) : Prop :=
  ∀ beans, Work.WarnsOf category (work.run beans)

namespace WarnsOf

theorem pure (a : α) : WarnsOf category (pure a : ServiceWork α) :=
  fun _ => .of_silent (.pure _)

theorem bind {work : ServiceWork α} {next : α → ServiceWork β} (first : WarnsOf category work)
    (rest : ∀ a, WarnsOf category (next a)) : WarnsOf category (work >>= next) :=
  fun beans => .bind (first beans) fun mid => rest mid.1 mid.2

theorem lift {work : Work α} (h : Work.WarnsOf category work) :
    WarnsOf category (liftM work : ServiceWork α) := by
  intro beans
  show Work.WarnsOf category (work >>= fun a => Pure.pure (a, beans))
  exact .bind h fun _ => .of_silent (.pure _)

theorem mapM {f : α → ServiceWork β} (h : ∀ a, WarnsOf category (f a)) (as : List α) :
    WarnsOf category (as.mapM f) := by
  induction as with
  | nil => exact .pure []
  | cons a as ih =>
    rw [List.mapM_cons]
    exact .bind (h a) fun _ => .bind ih fun _ => .pure _

end WarnsOf

end ServiceWork

/-! ## Endpoints -/

namespace Service

open Work (silent_report silent_symbol silent_syntheticSymbol silent_suffixedSymbol)

variable (service : Service)

theorem warnsOf_typeOf (endpoint : Endpoint) (source : SourceType) :
    Work.WarnsOf .unresolvedType (service.typeOf endpoint source) := by
  refine .bind (.of_silent (Mapper.silent_map source)) fun mapped => ?_
  cases mapped with
  | ok type => exact .of_silent (.pure type)
  | error unresolved =>
    refine .bind ((Work.warns_warn _).mono ?_) fun _ => .of_silent (.pure _)
    rintro _ rfl
    exact List.forall_mem_singleton.mpr rfl

theorem warnsOf_beanDeclaration (endpoint : Endpoint) (bean : SourceClass) (symbol : Symbol) :
    Work.WarnsOf .unresolvedType (service.beanDeclaration endpoint bean symbol) := by
  have hproperty (p : SourceProperty) :
      Work.WarnsOf .unresolvedType (service.beanProperty endpoint p) :=
    .bind (service.warnsOf_typeOf endpoint p.type) fun _ => .of_silent (.pure _)
  exact .bind (.mapM hproperty bean.properties) fun _ =>
    .bind (.of_silent (silent_report _ _ _)) fun _ => .of_silent (.pure _)

theorem warnsOf_queryBean (endpoint : Endpoint) (bean : SourceClass) :
    ServiceWork.WarnsOf .unresolvedType (service.queryBean endpoint bean) := by
  refine .bind (.lift (.of_silent (silent_symbol _))) fun symbol => fun beans => ?_
  show Work.WarnsOf _ ((if beans.any (·.symbol == symbol) then _ else _ :
    ServiceWork Symbol).run beans)
  split
  · exact ServiceWork.WarnsOf.pure symbol beans
  · exact ServiceWork.WarnsOf.bind (.lift (service.warnsOf_beanDeclaration endpoint bean symbol))
      (fun _ _ => .of_silent (.pure _)) beans

theorem warnsOf_queryTypes (endpoint : Endpoint) (singles : List (String × TypeExpr))
    (params : List QueryParam) :
    ServiceWork.WarnsOf .unresolvedType (service.queryTypes endpoint singles params) := by
  induction params generalizing singles with
  | nil => exact .pure _
  | cons param rest ih =>
    cases param with
    | single param => exact .bind (.lift (service.warnsOf_typeOf endpoint _)) fun _ => ih _
    | bean bean =>
      exact .bind (service.warnsOf_queryBean endpoint bean) fun _ => .bind (ih []) fun _ => .pure _

theorem warnsOf_parameters (endpoint : Endpoint) :
    ServiceWork.WarnsOf .unresolvedType (service.parameters endpoint) := by
  have hvalue (param : EndpointParam) (name : String) :
      Work.WarnsOf .unresolvedType (do
        let type ← service.typeOf endpoint param.type
        pure ({ name, type } : Parameter)) :=
    .bind (service.warnsOf_typeOf endpoint param.type) fun _ => .of_silent (.pure _)
  have hquery : ServiceWork.WarnsOf .unresolvedType (service.queryParameters endpoint) := by
    unfold queryParameters
    split
    · exact .pure _
    · exact .bind (.bind (service.warnsOf_queryTypes endpoint [] _) fun _ => .pure _)
        fun _ => .pure _
  exact .bind (.mapM (fun param => .lift (hvalue param _)) _) fun _ =>
    .bind (.mapM (fun param => .lift (hvalue param _)) _) fun _ => .bind hquery fun _ => .pure _

theorem warnsOf_method (client shared : Bool) (endpoint : Endpoint) :
    ServiceWork.WarnsOf .unresolvedType (service.method client shared endpoint) := by
  have hresult : Work.WarnsOf .unresolvedType (service.result endpoint) := by
    unfold result
    split
    · exact .bind (service.warnsOf_typeOf endpoint _) fun _ => .of_silent (.pure _)
    · exact .of_silent (.pure _)
  exact .bind (service.warnsOf_parameters endpoint) fun _ => .bind (.lift hresult) fun _ => .pure _

theorem warnsOf_groupMethods (client : Bool) (group : EndpointGroup) :
    ServiceWork.WarnsOf .unresolvedType (service.groupMethods client group) :=
  .mapM (fun _ => service.warnsOf_method client _ _) _

/-! ## Declarations -/

theorem silent_clientSymbol (group : EndpointGroup) : Work.Silent (service.clientSymbol group) := by
  unfold clientSymbol
  split
  · exact .bind (silent_symbol _) fun _ => .bind (silent_suffixedSymbol _ _) fun _ => .pure _
  · exact .bind (silent_symbol _) fun _ => .pure _

/-- Endpoints raise warnings about their types only. -/
theorem warnsOf_declarations (groups : List EndpointGroup) :
    ServiceWork.WarnsOf .unresolvedType (service.declarations groups) := by
  have hsurface (group : EndpointGroup) :
      ServiceWork.WarnsOf .unresolvedType (service.surface group) :=
    .bind (.lift (.of_silent (silent_symbol _))) fun _ =>
      .bind (service.warnsOf_groupMethods false group) fun _ => .pure _
  have hclient (symbol : Symbol) (group : EndpointGroup) :
      ServiceWork.WarnsOf .unresolvedType (service.client symbol group) :=
    .bind (.lift (.of_silent (service.silent_clientSymbol group))) fun _ =>
      .bind (service.warnsOf_groupMethods true group) fun _ => .pure _
  have hhttp : Work.Silent service.httpClient :=
    .bind (silent_syntheticSymbol _) fun _ => .pure _
  refine .bind ?_ fun _ => .bind ?_ fun _ => .pure _
  · unfold surfaces
    split
    · exact .mapM hsurface groups
    · exact .pure []
  · unfold clients
    split
    · exact .bind (.lift (.of_silent hhttp)) fun _ =>
        .bind (.mapM (hclient _) groups) fun _ => .pure _
    · exact .pure []

theorem silent_responseAlias (model : Model) : Work.Silent (service.responseAlias model) := by
  have hdefinition : Work.Silent service.responseDefinition := by
    unfold responseDefinition
    split
    · exact .pure _
    · exact .bind (silent_syntheticSymbol _) fun _ => .pure _
  unfold responseAlias
  split
  · exact .pure []
  · exact .bind hdefinition fun _ => .pure _

/-- Whether warnings are those about groups, followed by others about types. -/
def GroupsFirst (application : Application) (grouping : RestGrouping) (raised : List Warning) :
    Prop :=
  ∃ unresolved,
    raised = application.methods.filterMap (application.groupWarning? grouping) ++ unresolved ∧
    ∀ w ∈ unresolved, w.category = .unresolvedType

theorem warns_extend (model : Model) : Work.Warns (service.extend model)
    (GroupsFirst service.application service.settings.restGrouping) := by
  refine .bind_silent (service.silent_responseAlias model) fun _ =>
    .bind (Work.warns_forM_warn _) fun _ => .bind_silent (silent_report _ _ _) fun _ =>
      .bind (service.warnsOf_declarations _ []) fun _ => .of_silent (.pure _) ?_
  rintro unresolved hunresolved _ rfl
  exact ⟨unresolved, by rw [List.append_nil], hunresolved⟩

end Service

namespace Model

theorem silent_representDates (model : Model) (mapping : DateMapping)
    (selects : DataDeclaration → Bool) : Work.Silent (model.representDates mapping selects) := by
  rw [representDates_eq, countAndReplaceDates]
  split
  · exact .pure _
  · dsimp only
    split
    · exact .pure _
    · refine .bind (Work.silent_syntheticSymbol _) fun symbol => ?_
      split
      · exact .pure _
      · exact .bind (Work.silent_report _ _ _) fun _ => .pure _

/-- Where services are declared, there are warnings about their groups and then about types. -/
theorem warns_withServices (model : Model) (application : Application) {settings : Settings}
    (mapper : Mapper) (hmode : settings.restCodegen ≠ .neither) :
    Work.Warns (model.withServices application settings mapper)
      (Service.GroupsFirst application settings.restGrouping) := by
  unfold withServices
  rw [if_neg hmode]
  refine .bind_silent (Work.silent_syntheticSymbol _) fun response =>
    .bind (Service.warns_extend _ model) fun _ =>
      .bind_silent (.bind (silent_representDates _ _ _) fun _ => .pure _) fun _ =>
        .of_silent (.pure _) fun raised hraised => ?_
  rwa [List.append_nil]

end Model

end Typings
