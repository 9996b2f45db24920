import Typings.Proofs.Service.Methods
import Typings.Proofs.Service.Warnings
import Typings.Proofs.StableSort
import Typings.Proofs.Text.ByteOrder

/-!
# Groups of endpoints and their surfaces

The endpoints of an application are grouped by keys, and every group gets a surface. A key is the
resource of an endpoint, its annotation or the default name, as the strategy says. No endpoint is
lost on the way or compiled twice: the groups are a partition of the endpoints, in the order of the
first occurrences of their keys, and a surface has one method for each endpoint of its group.
Endpoints are sorted by their paths within a group, and endpoints with one path stay in the order of
the application.

## Main definitions

* `Application.Keys`, `Application.NamesDefault`: the key of an endpoint, and the default name.
* `Application.IsGroup`: a group has the endpoints with its key.
* `EndpointGroup.SurfacedBy`: a declaration is the surface of a group.
* `Endpoint.invalidMark?`: the annotation of an endpoint, if it cannot name a group.

## Main results

* `Application.isGroup_of_mem_groups`, `Application.endpoints_groups_perm`: the groups.
* `Model.surfaces_withServices`: the surfaces of an application, and the warnings about its groups.
-/

namespace Typings

open Work (yields_syntheticSymbol)

/-! ## Partitions -/

/-- What has one of some different keys is the same as what has each of them, one after the
other. -/
theorem flatMap_filter_perm {α κ : Type} [BEq κ] [LawfulBEq κ] {keys : List κ} (hnodup : keys.Nodup)
    (key : α → κ) {as : List α} (hkeys : ∀ a ∈ as, key a ∈ keys) :
    (keys.flatMap fun k => as.filter (key · == k)).Perm as := by
  induction keys generalizing as with
  | nil =>
    rw [List.eq_nil_iff_forall_not_mem.mpr fun a ha => absurd (hkeys a ha) List.not_mem_nil]
    exact .refl []
  | cons k keys ih =>
    obtain ⟨hk, hnodup⟩ := List.nodup_cons.mp hnodup
    have hrest : ∀ a ∈ as.filter (!key · == k), key a ∈ keys := by
      intro a ha
      obtain ⟨ha, hne⟩ := List.mem_filter.mp ha
      exact List.mem_of_ne_of_mem (by simpa using hne) (hkeys a ha)
    have hothers : (keys.flatMap fun k' => (as.filter (!key · == k)).filter (key · == k')) =
        keys.flatMap fun k' => as.filter (key · == k') := by
      refine List.flatMap_congr fun k' hk' => ?_
      rw [List.filter_filter]
      refine List.filter_congr fun a _ => ?_
      by_cases ha : key a = k'
      · have hne : key a ≠ k := fun heq => hk (heq ▸ ha ▸ hk')
        simp [ha, ha ▸ hne]
      · simp [ha]
    have hperm := ih hnodup hrest
    rw [hothers] at hperm
    exact (hperm.append_left _).trans (List.filter_append_perm (key · == k) as)

/-- An entry is not the only one of its kind if there is one at another position. -/
theorem one_lt_countP_iff {α : Type} {p : α → Bool} {as : List α} {i : Nat} {a : α}
    (ha : as[i]? = some a) (hp : p a = true) :
    1 < as.countP p ↔ ∃ j b, j ≠ i ∧ as[j]? = some b ∧ p b = true := by
  obtain ⟨hi, rfl⟩ := List.getElem?_eq_some_iff.mp ha
  have hcount := (List.getElem_cons_eraseIdx_perm hi).countP_eq p
  rw [List.countP_cons_of_pos hp] at hcount
  rw [← hcount, Nat.lt_add_left_iff_pos, List.countP_pos_iff]
  constructor
  · rintro ⟨b, hb, hpb⟩
    obtain ⟨j, hj, hget⟩ := List.mem_eraseIdx_iff_getElem?.mp hb
    exact ⟨j, b, hj, hget, hpb⟩
  · rintro ⟨j, b, hj, hget, hpb⟩
    exact ⟨b, List.mem_eraseIdx_iff_getElem?.mpr ⟨j, hj, hget⟩, hpb⟩

/-! ## Keys -/

namespace EntityName

open Text (pieces pieces_ne_nil)

/-- Whether a name is the last part of the name of an entity: it has no separator, and one stands
before it unless it is everything. -/
def IsSimpleName (entity name : String) : Prop :=
  (∀ c ∈ name.toList, c ≠ '.' ∧ c ≠ '$') ∧
    ∃ before, before ++ name.toList = entity.toList ∧ ∀ c ∈ before.getLast?, c = '.' ∨ c = '$'

/-- The last piece has no separator, and a separator stands before it unless it is everything. -/
theorem exists_append_lastPiece (isSeparator : Char → Bool) (cs : List Char) :
    (∀ c ∈ lastPiece isSeparator cs, isSeparator c = false) ∧
      ∃ before, before ++ lastPiece isSeparator cs = cs ∧
        (∀ c ∈ before.getLast?, isSeparator c = true) ∧
        ((pieces isSeparator cs).tail = [] ↔ before = []) := by
  unfold lastPiece
  induction cs with
  | nil => exact ⟨by simp, [], by simp⟩
  | cons c cs ih =>
    obtain ⟨part, parts, hparts⟩ := List.exists_cons_of_ne_nil (pieces_ne_nil isSeparator cs)
    obtain ⟨hlast, before, hcs, hbefore, hall⟩ := ih
    rw [hparts] at hlast hcs hall
    rw [pieces, hparts]
    cases hc : isSeparator c with
    | true =>
      refine ⟨hlast, c :: before, congrArg (c :: ·) hcs, ?_, by simp⟩
      cases before with
      | nil => simpa using hc
      | cons b before => simpa using hbefore
    | false =>
      cases parts with
      | nil =>
        obtain rfl := hall.mp rfl
        exact ⟨List.forall_mem_cons.mpr ⟨hc, hlast⟩, [], congrArg (c :: ·) hcs, by simp, by simp⟩
      | cons next parts =>
        obtain ⟨b, before, rfl⟩ := List.exists_cons_of_ne_nil (mt hall.mpr (by simp))
        exact ⟨hlast, c :: b :: before, congrArg (c :: ·) hcs, by simpa using hbefore, by simp⟩

theorem isSimpleName_simple (entity : String) : IsSimpleName entity (simple entity) := by
  obtain ⟨-, package, hentity, hpackage, -⟩ :=
    exists_append_lastPiece (· == '.') entity.toList
  have hdots := (exists_append_lastPiece (· == '.') entity.toList).1
  unfold IsSimpleName simple
  generalize lastPiece (· == '.') entity.toList = nested at *
  obtain ⟨hdollars, outer, hnested, houter, -⟩ := exists_append_lastPiece (· == '$') nested
  rw [String.toList_ofList]
  refine ⟨fun c hc => ⟨?_, by simpa using hdollars c hc⟩, package ++ outer, ?_, fun c hc => ?_⟩
  · have hmem : c ∈ nested := hnested ▸ List.mem_append_right outer hc
    simpa using hdots c hmem
  · rw [List.append_assoc, hnested, hentity]
  · rw [List.getLast?_append, Option.mem_def, Option.or_eq_some_iff] at hc
    rcases hc with hc | ⟨-, hc⟩
    · exact .inr (by simpa using houter c hc)
    · exact .inl (by simpa using hpackage c hc)

end EntityName

/-! ## Groups -/

namespace Application

variable {application : Application} {grouping : RestGrouping}

/-- Whether a name is that of the default group: the simple name of the application, if it has a
name. -/
def NamesDefault (application : Application) (name : String) : Prop :=
  match application.name with
  | some full => EntityName.IsSimpleName full name
  | none => name = "RestApplication"

theorem namesDefault_defaultGroup (application : Application) :
    application.NamesDefault application.defaultGroup := by
  unfold NamesDefault defaultGroup
  cases application.name with
  | none => rfl
  | some full => exact EntityName.isSimpleName_simple full

/-- The key that a strategy gives to an endpoint. -/
inductive Keys (application : Application) : RestGrouping → Endpoint → GroupKey → Prop where
  | resource (endpoint : Endpoint) :
      Keys application .perResource endpoint (.resource endpoint.resource)
  | marked {endpoint : Endpoint} {value : String} (mark : endpoint.groupMark = some value)
      (valid : Identifier.isValid value = true) :
      Keys application .perMark endpoint (.named value)
  | invalid {endpoint : Endpoint} {value : String} (mark : endpoint.groupMark = some value)
      (invalid : Identifier.isValid value = false) :
      Keys application .perMark endpoint (.named application.defaultGroup)
  | unmarked {endpoint : Endpoint} (mark : endpoint.groupMark = none) :
      Keys application .perMark endpoint (.named application.defaultGroup)
  | single (endpoint : Endpoint) :
      Keys application .singleApplication endpoint (.named application.defaultGroup)

theorem keys_groupKey (application : Application) (grouping : RestGrouping) (endpoint : Endpoint) :
    application.Keys grouping endpoint (application.groupKey grouping endpoint) := by
  cases grouping with
  | perResource => exact .resource endpoint
  | singleApplication => exact .single endpoint
  | perMark =>
    rw [groupKey]
    cases hmark : endpoint.groupMark with
    | none => exact .unmarked hmark
    | some value =>
      cases hvalid : Identifier.isValid value with
      | true =>
        rw [Option.filter_some_pos hvalid]
        exact .marked hmark hvalid
      | false =>
        rw [Option.filter_some_neg hvalid]
        exact .invalid hmark hvalid

/-- Whether a group has the endpoints of an application with its key, in the order of their paths,
where endpoints with one path are in the order of the application. -/
structure IsGroup (application : Application) (grouping : RestGrouping) (group : EndpointGroup) :
    Prop where
  perm : group.endpoints.Perm
    (application.methods.filter (application.groupKey grouping · == group.key))
  sorted : group.endpoints.Pairwise fun e e' => Text.ByteOrdered e.path e'.path
  stable : ∀ path, group.endpoints.filter (·.path == path) =
    (application.methods.filter (application.groupKey grouping · == group.key)).filter
      (·.path == path)

theorem isGroup_of_mem_groups {group : EndpointGroup} (h : group ∈ application.groups grouping) :
    application.IsGroup grouping group := by
  rw [groups_eq] at h
  obtain ⟨key, -, rfl⟩ := List.mem_map.mp h
  have htrans (a b c : Endpoint) : decide (a.path ≤ b.path) = true →
      decide (b.path ≤ c.path) = true → decide (a.path ≤ c.path) = true := by
    simpa using fun hab hbc => String.le_trans hab hbc
  have htotal (a b : Endpoint) : (decide (a.path ≤ b.path) || decide (b.path ≤ a.path)) = true := by
    simpa using String.le_total a.path b.path
  refine ⟨List.mergeSort_perm _ _, ?_, fun path => filter_mergeSort htrans htotal ?_ _⟩
  · refine (List.pairwise_mergeSort htrans htotal _).imp fun hle => ?_
    exact Text.byteOrdered_iff.mpr (of_decide_eq_true hle)
  · intro a b ha hb
    rw [beq_iff_eq.mp ha, beq_iff_eq.mp hb]
    exact decide_eq_true (String.le_refl path)

theorem isDistinct_keys_groups (application : Application) (grouping : RestGrouping) :
    IsDistinct (application.methods.map (application.groupKey grouping))
      ((application.groups grouping).map (·.key)) := by
  have hkeys : (application.groups grouping).map (·.key) =
      (application.methods.map (application.groupKey grouping)).eraseDups := by
    rw [groups_eq, List.map_map]
    exact List.map_id _
  rw [hkeys]
  exact isDistinct_eraseDups _

/-- Every endpoint is in one group, as often as it is in the application. -/
theorem endpoints_groups_perm (application : Application) (grouping : RestGrouping) :
    ((application.groups grouping).flatMap (·.endpoints)).Perm application.methods := by
  have hmem : ∀ e ∈ application.methods, application.groupKey grouping e ∈
      (application.methods.map (application.groupKey grouping)).eraseDups :=
    fun e he => List.mem_eraseDups.mpr (List.mem_map_of_mem he)
  rw [groups_eq, List.flatMap_map]
  refine .trans (.flatMap_left _ fun key _ => List.mergeSort_perm _ _) ?_
  exact flatMap_filter_perm (nodup_eraseDups _) (application.groupKey grouping) hmem

end Application

theorem GroupKey.origin_injective {key key' : GroupKey} (h : key.origin "" = key'.origin "") :
    key = key' := by
  cases key <;> cases key' <;> simp_all [GroupKey.origin]

/-! ## Surfaces -/

theorem RestCodegen.ne_neither_of_surface {mode : RestCodegen} (h : mode.surface = true) :
    mode ≠ .neither := by
  rintro rfl
  cases h

/-- Whether a method is declared for an endpoint of an application. -/
structure Endpoint.DeclaredBy (application : Application) (settings : Settings)
    (endpoint : Endpoint) (m : Method) : Prop where
  comments : m.comments = endpoint.comments ++
    ["HTTP " ++ endpoint.httpMethod ++ " /" ++ joinPaths application.path endpoint.path,
      "Source method: " ++ endpoint.qualifiedName]
  parameters : m.parameters.map (·.name) = endpoint.parameterNames settings
  body : m.body = none

/-- Whether a declaration is the surface of a group: it is named after the key, and declares a
method for each endpoint, which has the name of the endpoint if no other endpoint of the group
has. -/
structure EndpointGroup.SurfacedBy (application : Application) (settings : Settings)
    (table : SymbolTable) (group : EndpointGroup) (d : DataDeclaration) : Prop where
  issued : table.find? (group.key.origin "") = some d.symbol
  methods : List.Forall₂ (Endpoint.DeclaredBy application settings) group.endpoints d.methods
  name_eq_iff : ∀ (i : Nat) (e : Endpoint) (m : Method),
    group.endpoints[i]? = some e → d.methods[i]? = some m →
      (m.name = e.name ↔ ∀ (j : Nat) (e' : Endpoint),
        group.endpoints[j]? = some e' → e'.name = e.name → j = i)

namespace Service

/-- Whether a method is declared for an endpoint of a group. -/
structure DeclaresMethod (service : Service) (group : EndpointGroup) (endpoint : Endpoint)
    (m : Method) : Prop where
  name : m.name = service.methodName endpoint (group.shares endpoint)
  declared : endpoint.DeclaredBy service.application service.settings m

/-- Whether a declaration is that of a surface, or is none. -/
def SurfaceRole (service : Service) (table : SymbolTable) : Role → DataDeclaration → Prop
  | .surface group, d => d.category = .service ∧ d.isClass = false ∧
      table.find? (group.key.origin "") = some d.symbol ∧
      List.Forall₂ (service.DeclaresMethod group) group.endpoints d.methods
  | .httpClient, d => d.category = .servicePrerequisite
  | .client _, d => d.isClass = true

def Role.surface? : Role → Option EndpointGroup
  | surface group => some group
  | httpClient | client _ => none

variable {service : Service} {lo hi table : SymbolTable} {final : List DataDeclaration}
  {group : EndpointGroup} {endpoint : Endpoint}

theorem filterMap_surface?_roles {application : Application} {settings : Settings}
    (hsurface : settings.restCodegen.surface = true) :
    (application.roles settings).filterMap Role.surface? =
      application.groups settings.restGrouping := by
  have hclients : (if settings.restCodegen.client then Role.httpClient ::
      (application.groups settings.restGrouping).map .client else []).filterMap Role.surface? =
        [] := by
    rw [List.filterMap_eq_nil_iff]
    intro role hrole
    split at hrole
    · rcases List.mem_cons.mp hrole with rfl | hrole
      · rfl
      · obtain ⟨group, -, rfl⟩ := List.mem_map.mp hrole
        rfl
    · exact absurd hrole List.not_mem_nil
  unfold Application.roles
  rw [List.filterMap_append, hclients, List.append_nil, if_pos hsurface, List.filterMap_map]
  exact List.filterMap_some

theorem yields_surfaceRole :
    ServiceWork.Yields lo hi (service.AreBeans hi) final (service.declarations service.groups)
      (List.Forall₂ (service.SurfaceRole hi) service.roles) := by
  refine yields_declarations_of (fun group hgroup => ?_) ?_ fun symbol group hgroup => ?_
  · refine (yields_isSurface hgroup).mono fun d hd => ⟨hd.category, hd.isClass, hd.issued, ?_⟩
    rw [hd.methods, methodsImage, List.forall₂_map_right_iff, List.forall₂_same]
    exact fun endpoint _ => ⟨rfl, rfl, service.names_parametersImage hi endpoint, rfl⟩
  · exact .bind (yields_syntheticSymbol _) fun _ => .pure fun _ => rfl
  · exact .bind (.lift (yields_clientSymbol group)) fun _ =>
      .bind (yields_methodsImage true hgroup) fun _ => .pure fun _ _ => rfl

variable {d : DataDeclaration}

theorem SurfaceRole.mapTypes {role : Role} (h : service.SurfaceRole table role d)
    (f : TypeExpr → TypeExpr) : service.SurfaceRole table role (d.mapTypes f) := by
  cases role with
  | httpClient | client group => exact h
  | surface group =>
    obtain ⟨hcategory, hclass, hissued, hmethods⟩ := h
    refine ⟨hcategory, hclass, hissued, ?_⟩
    rw [DataDeclaration.mapTypes, List.forall₂_map_right_iff]
    refine hmethods.imp fun endpoint m hm => ⟨hm.name, hm.declared.comments, ?_, hm.declared.body⟩
    rw [← hm.declared.parameters, List.map_map]
    rfl

/-- Copy functions are added to classes, which surfaces are not. -/
theorem SurfaceRole.mapMethods {role : Role} (h : service.SurfaceRole table role d)
    (hclass : d.isClass = true) (f : Method → Method) :
    service.SurfaceRole table role { d with methods := d.methods.map f } := by
  cases role with
  | httpClient | client group => exact h
  | surface group => exact absurd (hclass.symm.trans h.2.1) (by decide)

/-- A longer name is not the name of the endpoint. -/
theorem methodName_true_ne (service : Service) (endpoint : Endpoint) :
    service.methodName endpoint true ≠ endpoint.name := by
  intro heq
  have hlength := congrArg String.length heq
  rw [methodName, if_pos rfl] at hlength
  simp only [String.length_append] at hlength
  have hdollar : "$".length = 1 := rfl
  omega

theorem SurfaceRole.surfacedBy (h : service.SurfaceRole table (.surface group) d) :
    group.SurfacedBy service.application service.settings table d := by
  obtain ⟨-, -, hissued, hmethods⟩ := h
  refine ⟨hissued, hmethods.imp fun _ _ hm => hm.declared, fun i e m he hm => ?_⟩
  obtain ⟨m', hm', hdeclares⟩ := exists_getElem?_of_forall₂ hmethods he
  obtain rfl := Option.some.inj (hm.symm.trans hm')
  rw [hdeclares.name]
  have hcount := one_lt_countP_iff (p := (·.name == e.name)) he (beq_self_eq_true _)
  cases hshares : group.shares e with
  | true =>
    obtain ⟨j, e', hj, he', hname⟩ := hcount.mp (of_decide_eq_true hshares)
    refine iff_of_false (service.methodName_true_ne e) fun honly => hj ?_
    exact honly j e' he' (beq_iff_eq.mp hname)
  | false =>
    refine iff_of_true rfl fun j e' he' hname => ?_
    by_contra hj
    exact of_decide_eq_false hshares (hcount.mpr ⟨j, e', hj, he', beq_iff_eq.mpr hname⟩)

end Service

/-! ## Annotations -/

/-- The annotation of an endpoint that cannot name a group. -/
def Endpoint.invalidMark? (endpoint : Endpoint) : Option String :=
  endpoint.groupMark.filter fun value => !Identifier.isValid value

namespace Application

variable {application : Application} {endpoint : Endpoint}

theorem groupWarning?_perMark (application : Application) (endpoint : Endpoint) :
    application.groupWarning? .perMark endpoint = endpoint.invalidMark?.map fun value =>
      .ofInvalidIdentifier value endpoint.qualifiedName application.defaultGroup := by
  unfold groupWarning? Endpoint.invalidMark?
  cases endpoint.groupMark with
  | none => rfl
  | some value => cases hvalid : Identifier.isValid value <;> simp [hvalid]

theorem groupKey_of_invalidMark? {value : String} (h : endpoint.invalidMark? = some value) :
    application.groupKey .perMark endpoint = .named application.defaultGroup := by
  obtain ⟨hmark, hinvalid⟩ := Option.filter_eq_some_iff.mp h
  have hvalid : Identifier.isValid value = false := by simpa using hinvalid
  rw [groupKey, hmark, Option.filter_some_neg hvalid, Option.getD_none]

theorem category_of_mem_groupWarnings {grouping : RestGrouping} {w : Warning}
    (h : w ∈ application.methods.filterMap (application.groupWarning? grouping)) :
    w.category = .invalidIdentifier := by
  obtain ⟨e, -, he⟩ := List.mem_filterMap.mp h
  unfold groupWarning? at he
  split at he
  · split at he
    · cases he
    · rw [← Option.some.inj he]
      rfl
  · cases he

end Application

/-- Of the warnings on services, those about identifiers are those about groups. -/
theorem Service.GroupsFirst.filter_eq {application : Application} {grouping : RestGrouping}
    {raised : List Warning} (h : Service.GroupsFirst application grouping raised) :
    raised.filter (·.category == .invalidIdentifier) =
      application.methods.filterMap (application.groupWarning? grouping) := by
  obtain ⟨unresolved, rfl, hunresolved⟩ := h
  have hgroups : ∀ w ∈ application.methods.filterMap (application.groupWarning? grouping),
      (w.category == .invalidIdentifier) = true :=
    fun w hw => beq_iff_eq.mpr (Application.category_of_mem_groupWarnings hw)
  have hothers : ∀ w ∈ unresolved, ¬(w.category == .invalidIdentifier) = true := by
    intro w hw
    rw [hunresolved w hw]
    decide
  rw [List.filter_append, List.filter_eq_self.mpr hgroups, List.filter_eq_nil_iff.mpr hothers,
    List.append_nil]

namespace Model

/-- Different groups have surfaces with different symbols. -/
theorem nodup_symbols_of_surfacedBy {application : Application} {settings : Settings}
    {table : SymbolTable} {groups : List EndpointGroup} {surfaces : List DataDeclaration}
    (h : List.Forall₂ (EndpointGroup.SurfacedBy application settings table) groups surfaces)
    (hnodup : (groups.map (·.key)).Nodup) : (surfaces.map (·.symbol)).Nodup := by
  have hissued : (groups.map (·.key)).map (fun key => table.find? (key.origin "")) =
      (surfaces.map (·.symbol)).map some := by
    rw [List.map_map, List.map_map]
    exact map_eq_map_of_forall₂ h fun group d hd => hd.issued
  refine List.Nodup.of_map some (hissued ▸ hnodup.map_on fun key hkey key' hkey' heq => ?_)
  obtain ⟨group, hgroup, rfl⟩ := List.mem_map.mp hkey
  obtain ⟨d, -, hd⟩ := exists_mem_of_forall₂ h.flip hgroup
  exact GroupKey.origin_injective (SymbolTable.find?_injective hd.issued (heq ▸ hd.issued))

/-- Every group has its surface, and there are no other ones. -/
theorem forall₂_surfacedBy_withServices (model : Model) (application : Application)
    {settings : Settings} (mapper : Mapper) (session : Session)
    (hsurface : settings.restCodegen.surface = true) :
    let run := (model.withServices application settings mapper).run session
    List.Forall₂ (EndpointGroup.SurfacedBy application settings run.2.symbols)
      (application.groups settings.restGrouping)
      ((run.1.data.drop model.data.length).filter fun d => d.category == .service &&
        !d.isClass) := by
  intro run
  have hyields : Work.Yields session.symbols run.2.symbols
      (model.withServices application settings mapper) fun served => ∃ response, model.AddsRoles
        (Service.SurfaceRole { application, settings, mapper, response } run.2.symbols)
        (application.roles settings) served :=
    yields_withServices_roles (P := (Service.SurfaceRole · run.2.symbols))
      (RestCodegen.ne_neither_of_surface hsurface)
      (fun _ _ => Service.yields_surfaceRole) (fun _ _ _ f hrole => hrole.mapTypes f)
      fun _ _ _ _ _ hrole hclass => hrole.mapMethods hclass _
  obtain ⟨response, hadds⟩ := hyields.holds (le_refl _) (le_refl _)
  rw [← Service.filterMap_surface?_roles hsurface]
  refine hadds.forall₂_filter (fun d hd => by rw [hd]; rfl) ?_ ?_
  · intro role d hrole hgroup
    cases role with
    | surface group => cases hgroup
    | httpClient =>
      have hcategory : d.category = .servicePrerequisite := hrole
      rw [hcategory]
      rfl
    | client group =>
      have hclass : d.isClass = true := hrole
      rw [hclass, Bool.not_true, Bool.and_false]
  · intro role d group hrole hgroup
    cases role with
    | httpClient | client group' => cases hgroup
    | surface group' =>
      obtain rfl := Option.some.inj hgroup
      refine ⟨?_, hrole.surfacedBy⟩
      rw [hrole.1, hrole.2.1]
      rfl

/-- Where surfaces are declared, there is one for each key, in the order in which the keys occur
first. The key of an endpoint is what the strategy says. The groups are a partition of the
endpoints, and a surface declares a method for each endpoint of its group, under the name of the
endpoint if no other endpoint of the group has it. Annotations that cannot name a group are warned
about once, and their endpoints are in the default group. -/
theorem surfaces_withServices (model : Model) (application : Application) (settings : Settings)
    (mapper : Mapper) (session : Session) (hsurface : settings.restCodegen.surface = true) :
    let run := (model.withServices application settings mapper).run session
    let surfaces := (run.1.data.drop model.data.length).filter fun d =>
      d.category == .service && !d.isClass
    let keyOf := application.groupKey settings.restGrouping
    (∀ endpoint, application.Keys settings.restGrouping endpoint (keyOf endpoint)) ∧
    application.NamesDefault application.defaultGroup ∧
    (∃ groups : List EndpointGroup,
      IsDistinct (application.methods.map keyOf) (groups.map (·.key)) ∧
      (∀ group ∈ groups, application.IsGroup settings.restGrouping group) ∧
      List.Forall₂ (EndpointGroup.SurfacedBy application settings run.2.symbols) groups surfaces ∧
      (surfaces.map (·.symbol)).Nodup ∧
      (groups.flatMap (·.endpoints)).Perm application.methods ∧
      (surfaces.map (·.methods.length)).sum = application.methods.length) ∧
    (settings.restGrouping = .perMark →
      (∃ raised, run.2.warnings = session.warnings ++ raised ∧
        raised.filter (·.category == .invalidIdentifier) =
          application.methods.filterMap fun endpoint => endpoint.invalidMark?.map fun value =>
            .ofInvalidIdentifier value endpoint.qualifiedName application.defaultGroup) ∧
      ∀ endpoint ∈ application.methods, ∀ value, endpoint.invalidMark? = some value →
        keyOf endpoint = .named application.defaultGroup) := by
  intro run surfaces keyOf
  have hsurfaced := forall₂_surfacedBy_withServices model application mapper session hsurface
  have hperm := application.endpoints_groups_perm settings.restGrouping
  have hdistinct := application.isDistinct_keys_groups settings.restGrouping
  refine ⟨application.keys_groupKey settings.restGrouping, application.namesDefault_defaultGroup,
    ⟨application.groups settings.restGrouping, hdistinct,
    fun group => Application.isGroup_of_mem_groups, hsurfaced,
    nodup_symbols_of_surfacedBy hsurfaced hdistinct.nodup, hperm, ?_⟩, fun hgrouping => ⟨?_, ?_⟩⟩
  · rw [← hperm.length_eq, List.length_flatMap]
    refine congrArg List.sum (map_eq_map_of_forall₂ hsurfaced fun group d hd => ?_).symm
    exact hd.methods.length_eq
  · have hmode := RestCodegen.ne_neither_of_surface hsurface
    obtain ⟨raised, hraised, hgroups⟩ := model.warns_withServices application mapper hmode session
    refine ⟨raised, hraised, hgroups.filter_eq.trans ?_⟩
    rw [hgrouping]
    exact List.filterMap_congr fun endpoint _ => application.groupWarning?_perMark endpoint
  · intro endpoint _ value hmark
    show application.groupKey settings.restGrouping endpoint = _
    rw [hgrouping]
    exact Application.groupKey_of_invalidMark? hmark

end Model

/-- Endpoints with an annotation that names a group, with one that does not, and without any. -/
def markedApplication : Application where
  methods :=
    [{ name := "list", httpMethod := "GET", path := "people", resource := "People"
       groupMark := some "Staff" },
      { name := "find", httpMethod := "GET", path := "people/{id}", resource := "People"
        groupMark := some "two words" },
      { name := "find", httpMethod := "GET", path := "orders/{id}", resource := "Orders" }]

/-- Settings for surfaces of annotated groups. -/
def markedSettings : Settings where
  restCodegen := .surfaceOnly
  restGrouping := .perMark

/-- The three endpoints have one method each, and one annotation is warned about. -/
theorem surfaces_marked :
    let run := (Model.withServices markedApplication markedSettings (.builtIn markedSettings {})
      {}).run {}
    markedSettings.restCodegen.surface = true ∧
    ((run.1.data.filter fun d => d.category == .service && !d.isClass).map (·.methods.length)).sum =
      3 ∧
    run.2.warnings.filter (·.category == .invalidIdentifier) =
      [.ofInvalidIdentifier "two words" "People.find" "RestApplication"] := by
  intro run
  have hsurface : markedSettings.restCodegen.surface = true := rfl
  obtain ⟨-, -, ⟨_, -, -, -, -, -, hsum⟩, hmarks⟩ :=
    Model.surfaces_withServices {} markedApplication
    markedSettings (.builtIn markedSettings {}) {} hsurface
  obtain ⟨⟨raised, hraised, hfilter⟩, -⟩ := hmarks rfl
  refine ⟨hsurface, hsum, ?_⟩
  rw [show run.2.warnings = raised from hraised, hfilter]
  decide +kernel

end Typings
