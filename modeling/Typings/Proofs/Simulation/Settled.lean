import Typings.Proofs.Simulation.Models
import Typings.Proofs.Simulation.Services
import Typings.Proofs.UniqueNames

/-!
# The steps of two runs

Every step between building and naming leads from models that are alike to models that are alike, in
whatever order the first ones list classes and enums.

## Main results

* `Builder.sim_declarations`: graphs that list the same classes and enums are built alike.
* `Model.sim_settled`: models that are alike are settled alike.
-/

namespace Typings

open Work

variable {c : Correspondence}

/-- Images under related functions are permutations of each other up to the relation. -/
theorem perm_of_images {α β β' : Type} {as as' : List α} {g : α → β} {g' : α → β'} {r : β → β'}
    (hperm : as.Perm as') (hg : ∀ a ∈ as, r (g a) = g' a) :
    ((as.map g).map r).Perm (as'.map g') := by
  have himage : (as.map g).map r = as.map g' := by
    rw [List.map_map]
    exact List.map_congr_left hg
  rw [himage]
  exact hperm.map g'

/-- A permutation of images is the image of a permutation. -/
theorem exists_perm_of_map_perm {α β : Type} {as : List α} {bs : List β} {r : α → β}
    (h : (as.map r).Perm bs) : ∃ as', as.Perm as' ∧ bs = as'.map r := by
  have hcomp : Relation.Comp (· = List.map r ·) List.Perm bs as := by
    rw [List.eq_map_comp_perm]
    exact h.symm
  obtain ⟨as', heq, hperm⟩ := hcomp
  exact ⟨as', hperm.symm, heq⟩

/-! ## Building -/

namespace Builder

variable {builder builder' : Builder}

/-- Graphs that list the same classes and enums are built alike. -/
theorem sim_declarations (h : builder.Alike builder')
    (hlists : ∀ source ∈ builder.graph.classes, source.ListsDiscriminant)
    (hclasses : builder.graph.classes.Perm builder'.graph.classes)
    (henums : builder.graph.enums.Perm builder'.graph.enums) :
    Sim c (fun model model' =>
        (model.data.map (DataDeclaration.rename c.symbols)).Perm model'.data ∧
          (model.enums.map (EnumDeclaration.rename c.symbols)).Perm model'.enums ∧
          model = { data := model.data, enums := model.enums } ∧
          model' = { data := model'.data, enums := model'.enums })
      builder.declarations builder'.declarations := by
  have hdata := Sim.mapM_perm (c := c) hclasses fun source hsource =>
    sim_classDeclaration h (hlists source hsource)
  have henum := Sim.mapM_perm (c := c) henums fun source _ => sim_enumDeclaration source
  refine hdata.bind_of_grows ?_ ?_ ?_
  · exact fun data =>
      .bind henum.grows fun enums => .bind (quiet_report _ _ _).grows fun _ => .pure _
  · exact fun data =>
      .bind henum.grows' fun enums => .bind (quiet_report _ _ _).grows fun _ => .pure _
  · rintro _ _ ⟨g, g', hg, rfl, rfl⟩
    refine henum.bind_of_grows ?_ ?_ ?_
    · exact fun enums => .bind (quiet_report _ _ _).grows fun _ => .pure _
    · exact fun enums => .bind (quiet_report _ _ _).grows fun _ => .pure _
    · rintro _ _ ⟨k, k', hk, rfl, rfl⟩
      refine .after_quiet (quiet_report _ _ _) (quiet_report _ _ _) (.pure ⟨?_, ?_, rfl, rfl⟩)
      · exact perm_of_images hclasses hg
      · exact perm_of_images henums hk

end Builder

namespace Model

variable {added : List DataDeclaration} {model model' : Model} {settings : Settings}

/-! ## Representation -/

theorem sim_reconcile (h : Alike c [] model model') :
    Sim c (fun reconciled reconciled' => Alike c [] reconciled reconciled' ∧
        reconciled.aliases = model.aliases ∧ reconciled.enums = model.enums)
      model.reconcile model'.reconcile := by
  obtain ⟨_, hrestated⟩ := h.withoutRestated
  obtain ⟨_, himplemented⟩ := hrestated.withImplemented
  exact .after_quiet (quiet_forM fun _ => quiet_report _ _ _)
    (quiet_forM fun _ => quiet_report _ _ _)
    (.after_quiet (quiet_report _ _ _) (quiet_report _ _ _) (.pure ⟨himplemented, rfl, rfl⟩))

theorem sim_representDates (h : Alike c added model model')
    (selects selects' : DataDeclaration → Bool)
    (hselects : ∀ d, selects' (d.rename c.symbols) = selects d) (mapping : DateMapping) :
    Sim c (fun dated dated' => ∃ change, Alike c (added.map change) dated dated')
      (model.representDates mapping selects) (model'.representDates mapping selects') := by
  rw [representDates_eq, representDates_eq, countAndReplaceDates, countAndReplaceDates]
  cases halias : mapping.alias? with
  | none => exact .pure h.unchanged
  | some declared =>
    obtain ⟨name, definition⟩ := declared
    have hdefinition : definition.rename c.symbols = definition := by
      cases mapping with
      | unmodified => cases halias
      | asNumber | asString =>
        obtain ⟨rfl, rfl⟩ := Prod.mk.inj (Option.some.inj halias)
        exact TypeExpr.rename_primitive _
    dsimp only
    rw [h.dateCount hselects]
    split
    · exact .pure h.unchanged
    · refine .bind c.symbols.surjective (sim_symbol (.synthetic name)) fun symbol => ?_
      rw [h.isSome_findAlias?]
      obtain ⟨change, hreplaced⟩ := h.replaceDates hselects symbol
      split
      · exact .pure ⟨change, hreplaced⟩
      · refine .after_quiet (quiet_report _ _ _) (quiet_report _ _ _)
          (.pure ⟨change, hreplaced.data,
          ?_, hreplaced.enums, hreplaced.helpers, hreplaced.inlinedEnums⟩)
        rw [List.map_append]
        refine hreplaced.aliases.append (.of_eq ?_)
        rw [List.map_singleton, AliasDeclaration.rename, hdefinition]

theorem sim_represent (h : Alike c [] model model') (hnodup : model.aliasSymbols.Nodup)
    (hfresh : ∀ name s, c.hi.find? (.synthetic name) = some s → s ∉ model.enums.map (·.symbol)) :
    Sim c (Alike c []) (model.represent settings) (model'.represent settings) := by
  have hdates := (sim_representDates h (fun _ => true) (fun _ => true) (fun _ => rfl)
    settings.dateMapping).and_yields yields_representDates
  refine hdates.bind_of_grows ?_ ?_ ?_
  · exact fun dated => .bind (quiet_report _ _ _).grows fun _ => .pure _
  · exact fun dated => .bind (quiet_report _ _ _).grows fun _ => .pure _
  · rintro dated dated' ⟨⟨_, hdated⟩, hrepresented⟩
    obtain ⟨_, henums⟩ := hdated.representEnums (hrepresented.nodup_aliasSymbols hnodup hfresh)
      settings.enumMapping
    exact .after_quiet (quiet_report _ _ _) (quiet_report _ _ _) (.pure henums)

/-! ## Tagged unions -/

theorem sim_unionAlias (h : Alike c [] model model') {base : DataDeclaration}
    (hbase : base ∈ model.unionBases) :
    Sim c (AliasDeclaration.rename c.symbols · = ·) (model.unionAlias base)
      (model'.unionAlias (base.rename c.symbols)) := by
  obtain ⟨own, _, hdata, -, -, hown⟩ := h.data
  have hmem : base ∈ own := by
    have hmem := List.mem_of_mem_filter hbase
    rwa [hdata, List.append_nil] at hmem
  obtain ⟨name, hname⟩ := hown.exists_isOf base hmem
  refine .bind_pure (sim_suffixedSymbol hname.issued hname.issued' "Union") ?_
  rintro symbol _ rfl
  have horigin : (model'.findData? (base.rename c.symbols).symbol).bind (·.origin) =
      (model.findData? base.symbol).bind (·.origin) := by
    rw [DataDeclaration.rename_symbol, h.mirrors.findData?, Option.bind_map]
    rfl
  rw [horigin, h.mirrors.unionDefinition]
  rfl

theorem sim_declareUnions (h : Alike c [] model model') :
    Sim c (Alike c []) model.declareUnions model'.declareUnions := by
  obtain ⟨bases', hperm, hbases'⟩ := exists_perm_of_map_perm h.perm_unionBases
  have heach : ∀ base ∈ model.unionBases,
      Sim c (Prod.map c.symbols (AliasDeclaration.rename c.symbols) · = ·)
        (do let union ← model.unionAlias base; pure (base.symbol, union))
        (do let union ← model'.unionAlias (base.rename c.symbols)
            pure ((base.rename c.symbols).symbol, union)) := by
    intro base hbase
    refine (sim_unionAlias h hbase).bind_pure ?_
    rintro union _ rfl
    rfl
  have hunions := (Sim.mapM_perm hperm heach).and_yields
    (.mapM (R := IsUnionOf c.lo c.hi model) fun base _ => yields_union base)
  refine .after_quiet (quiet_forM fun _ => quiet_report _ _ _)
    (quiet_forM fun _ => quiet_report _ _ _) ?_
  rw [hbases', List.mapM_map]
  refine hunions.bind_pure ?_
  rintro _ _ ⟨⟨g, g', hg, rfl, rfl⟩, hunion⟩
  rw [List.forall₂_map_right_iff, List.forall₂_same] at hunion
  have hkeys : (model.unionBases.map g).map (·.1) = model.unionBases.map (·.symbol) := by
    rw [List.map_map]
    exact List.map_congr_left fun base hbase => (hunion base hbase).key
  have hnodup : (model.unionBases.map (·.symbol)).Nodup := by
    obtain ⟨own, _, hdata, -, -, hown⟩ := h.data
    rw [List.append_nil] at hdata
    exact hown.nodup_symbols.sublist (hdata ▸ List.filter_sublist.map _)
  obtain ⟨_, hunions⟩ := h.withUnions (perm_of_images hperm hg) (hkeys ▸ hnodup) <| by
    intro d _ name hname union hlast
    obtain ⟨base, hbase, heq⟩ := List.mem_map.mp (mem_of_lastOf? hlast)
    have hbaseUnion := hunion base hbase
    have hsymbol : base.symbol = d.symbol := hbaseUnion.key.symm.trans (congrArg Prod.fst heq)
    have hfound := hbaseUnion.symbol _ (hsymbol ▸ hname.issued)
    rwa [heq] at hfound
  obtain ⟨_, hused⟩ := hunions.useUnions (fun _ => true) (fun _ => true) fun _ => rfl
  exact hused

theorem sim_unite (h : Alike c [] model model') :
    Sim c (Alike c []) (model.unite settings) (model'.unite settings) := by
  unfold unite
  split
  · exact sim_declareUnions h
  · exact .pure h

/-! ## Revival and services -/

theorem Alike.revive (h : Alike c added model model') :
    ∃ change, Alike c (added.map change) (model.revive settings) (model'.revive settings) := by
  unfold Model.revive
  split
  · exact h.withRevival
  · exact h.unchanged

end Model

namespace Service

variable {service : Service} {mapper' : Mapper} {added : List DataDeclaration}
  {model model' : Model}

theorem sim_responseAlias (h : Model.Alike c added model model') :
    Sim c (List.map (AliasDeclaration.rename c.symbols) · = ·) (service.responseAlias model)
      ((service.counterpart c mapper').responseAlias model') := by
  have hfound : (model'.findAlias? (service.counterpart c mapper').response).isSome =
      (model.findAlias? service.response).isSome := h.isSome_findAlias? _
  have hdefinition : Sim c (TypeExpr.rename c.symbols · = ·) service.responseDefinition
      (service.counterpart c mapper').responseDefinition := by
    unfold responseDefinition
    cases htype : service.settings.restResponseType with
    | some text =>
      simp only [counterpart, htype]
      exact .pure (TypeExpr.rename_verbatim text)
    | none =>
      simp only [counterpart, htype]
      refine .bind_pure (sim_symbol (.synthetic "Promise")) ?_
      rintro promise _ rfl
      simp
  unfold responseAlias
  rw [hfound]
  split
  · exact .pure rfl
  · refine hdefinition.bind_pure ?_
    rintro definition _ rfl
    rfl

theorem sim_extend (hmapper : service.mapper.Alike mapper') (h : Model.Alike c added model model') :
    Sim c (fun result result' => (∃ added, Model.Alike c added result.1 result'.1) ∧
        result.2.map c.symbols = result'.2)
      (service.extend model) ((service.counterpart c mapper').extend model') := by
  have hgroups : ∀ application : Application, ∀ grouping,
      (application.warnAboutGroups grouping).Quiet := fun _ _ => quiet_forM quiet_warn
  have hdeclarations := (sim_declarations (c := c) hmapper
    (service.application.groups service.settings.restGrouping)).runs []
  refine (sim_responseAlias h).bind_of_grows ?_ ?_ ?_
  · exact fun aliases =>
      .bind (hgroups _ _).grows fun _ => .bind (quiet_report _ _ _).grows fun _ =>
      .bind hdeclarations.grows fun _ => .pure _
  · exact fun aliases =>
      .bind (hgroups _ _).grows fun _ => .bind (quiet_report _ _ _).grows fun _ =>
      .bind hdeclarations.grows' fun _ => .pure _
  · rintro aliases _ rfl
    refine .after_quiet (hgroups _ _) (hgroups _ _)
      (.after_quiet (quiet_report _ _ _) (quiet_report _ _ _) (hdeclarations.bind_pure ?_))
    rintro ⟨declared, beans⟩ ⟨_, _⟩ ⟨rfl, rfl⟩
    have hextended := h.addServices aliases (declared ++ beans)
    simp only [List.map_append, ← List.append_assoc] at hextended
    refine ⟨⟨added ++ declared ++ beans, ?_⟩, ?_⟩
    · have hclient : (service.counterpart c mapper').settings.restCodegen.client =
          service.settings.restCodegen.client := rfl
      rw [hclient]
      split
      · exact hextended.withHelper .uriEncoding
      · exact hextended
    · rw [List.map_map, List.map_map]
      rfl

end Service

namespace Model

variable {added : List DataDeclaration} {model model' : Model} {settings : Settings}
  {mapper mapper' : Mapper}

theorem sim_representServices (h : Alike c added model model') (beans : List Symbol) :
    Sim c (fun represented represented' => ∃ added, Alike c added represented represented')
      (model.representServices settings beans)
      (model'.representServices settings (beans.map c.symbols)) := by
  let isNew := fun (beans : List Symbol) (d : DataDeclaration) =>
    d.category != .data || beans.contains d.symbol
  have hnew : ∀ d, isNew (beans.map c.symbols) (d.rename c.symbols) = isNew beans d := by
    intro d
    have hbeans : (beans.map c.symbols).contains (c.symbols d.symbol) =
        beans.contains d.symbol := by
      rw [Bool.eq_iff_iff, List.contains_iff_mem, List.contains_iff_mem,
        List.mem_map_of_injective c.symbols.injective]
    exact congrArg (d.category != .data || ·) hbeans
  refine (sim_representDates h _ _ hnew settings.dateMapping).bind_pure ?_
  rintro dated dated' ⟨_, hdated⟩
  obtain ⟨_, hinlined⟩ := hdated.inlineEnums _ _ hnew
  split
  · obtain ⟨_, hused⟩ := hinlined.useUnions _ _ hnew
    exact ⟨_, hused⟩
  · exact ⟨_, hinlined⟩

theorem grows_representServices (beans : List Symbol) :
    (model.representServices settings beans).Grows :=
  (@yields_representServices {} {} settings model beans).toGrows

theorem sim_withServices (h : Alike c added model model') (hmapper : mapper.Alike mapper')
    (application : Application) :
    Sim c (fun served served' => ∃ added, Alike c added served served')
      (model.withServices application settings mapper)
      (model'.withServices application settings mapper') := by
  unfold withServices
  split
  · exact .pure ⟨added, h⟩
  · refine .bind c.symbols.surjective (sim_symbol (.synthetic "RestResponse")) fun response => ?_
    have hextend :=
      @Service.sim_extend c { application, settings, mapper, response } _ _ _ _ hmapper h
    refine hextend.bind_of_grows ?_ ?_ ?_
    iterate 2
      rintro ⟨extended, beans⟩
      exact .bind (grows_representServices beans) fun _ => .pure _
    · rintro ⟨extended, beans⟩ ⟨extended', _⟩ ⟨⟨_, hextended⟩, rfl⟩
      refine (sim_representServices hextended beans).bind_pure ?_
      rintro represented represented' ⟨_, hrepresented⟩
      split
      · obtain ⟨_, hcopies⟩ := hrepresented.withCopyFunctions response
        exact ⟨_, hcopies⟩
      · exact ⟨_, hrepresented⟩

section Grows

variable {rest : Option Application}

theorem grows_represent : (model.represent settings).Grows :=
  .bind (@yields_representDates model {} {} settings.dateMapping fun _ => true).toGrows fun _ =>
    .bind (quiet_report _ _ _).grows fun _ => .pure _

theorem grows_unite : (model.unite settings).Grows :=
  (@yields_unite model {} {} settings).toGrows

theorem grows_serve : (model.serve settings mapper rest).Grows :=
  (@yields_serve model {} {} settings mapper rest).toGrows

end Grows

/-- Models that are alike are settled alike. -/
theorem sim_settled (h : Alike c [] model model') (hmapper : mapper.Alike mapper')
    (hnodup : model.aliasSymbols.Nodup)
    (hfresh : ∀ name s, c.hi.find? (.synthetic name) = some s → s ∉ model.enums.map (·.symbol))
    (rest : Option Application) :
    Sim c (fun final final' => ∃ added, Alike c added final final')
      (model.settled settings mapper rest) (model'.settled settings mapper' rest) := by
  have hserve : ∀ united united', Alike c [] united united' →
      Sim c (fun served served' => ∃ added, Alike c added served served')
        ((united.revive settings).serve settings mapper rest)
        ((united'.revive settings).serve settings mapper' rest) := by
    intro united united' hunited
    obtain ⟨_, hrevived⟩ := hunited.revive
    cases rest with
    | none => exact .pure ⟨_, hrevived⟩
    | some application => exact sim_withServices hrevived hmapper application
  refine (sim_reconcile h).bind_of_grows ?_ ?_ ?_
  iterate 2
    exact fun _ => .bind grows_represent fun _ => .bind grows_unite fun _ => .bind grows_serve
      fun _ => .bind (quiet_report _ _ _).grows fun _ => .pure _
  rintro reconciled reconciled' ⟨hreconciled, haliases, henums⟩
  have hnodup' : reconciled.aliasSymbols.Nodup := by rwa [aliasSymbols, haliases, henums]
  refine (sim_represent hreconciled hnodup' (henums ▸ hfresh)).bind_of_grows ?_ ?_ ?_
  iterate 2
    exact fun _ => .bind grows_unite fun _ => .bind grows_serve fun _ =>
      .bind (quiet_report _ _ _).grows fun _ => .pure _
  intro represented represented' hrepresented
  refine (sim_unite hrepresented).bind_of_grows ?_ ?_ ?_
  iterate 2
    exact fun _ => .bind grows_serve fun _ => .bind (quiet_report _ _ _).grows fun _ => .pure _
  intro united united' hunited
  refine (hserve united united' hunited).bind_of_grows ?_ ?_ ?_
  iterate 2
    exact fun _ => .bind (quiet_report _ _ _).grows fun _ => .pure _
  rintro served served' ⟨_, hserved⟩
  obtain ⟨_, hfinal⟩ := hserved.withOptionalForm settings.optionalProperties
  exact .after_quiet (quiet_report _ _ _) (quiet_report _ _ _) (.pure ⟨_, hfinal⟩)

end Model

end Typings
