import Typings.Proofs.Compile
import Typings.Proofs.Model.Order
import Typings.Proofs.Symbol.Names

/-!
# Unique names

Two declarations with different symbols never share a name. Two declarations share a symbol, and so
a name, only if one of them is a surface or client of endpoints: it may be named after a class or an
enum that is declared as well, or after what an alias or another surface or client is named after.

## Main definitions

* `SourceGraph.roles`: the declarations of endpoints.
* `Builder.AliasOrigin`: what aliases and enums are named after.

## Main results

* `Compilation.nodup_aliasSymbols`: no two aliases or enums share a symbol.
* `nodup_fullNames_iff`: when all names are distinct.
-/

namespace Typings

/-- Entries that stand for different entries are different. -/
theorem nodup_map_of_forall₂ {α β γ δ : Type} {R : α → β → Prop} {f : α → γ} {g : β → δ}
    {as : List α} {bs : List β} (h : List.Forall₂ R as bs)
    (hinj : ∀ a ∈ as, ∀ a' ∈ as, ∀ b b', R a b → R a' b' → g b = g b' → f a = f a')
    (hnodup : (as.map f).Nodup) : (bs.map g).Nodup := by
  induction h with
  | nil => exact List.nodup_nil
  | @cons a b as bs hab hrest ih =>
    obtain ⟨hnew, hnodup⟩ := List.nodup_cons.mp hnodup
    refine List.nodup_cons.mpr ⟨fun hmem => hnew ?_, ih (fun a ha a' ha' => ?_) hnodup⟩
    · obtain ⟨b', hb', heq⟩ := List.mem_map.mp hmem
      obtain ⟨a', ha', hab'⟩ := exists_mem_of_forall₂ hrest hb'
      rw [hinj a List.mem_cons_self a' (List.mem_cons_of_mem _ ha') b b' hab hab' heq.symm]
      exact List.mem_map_of_mem ha'
    · exact hinj a (List.mem_cons_of_mem _ ha) a' (List.mem_cons_of_mem _ ha')

/-! ## Aliases and enums -/

namespace Model

variable {model model' : Model} {hi : SymbolTable}

theorem nodup_aliasSymbols_cons {s : Symbol} {E : List Symbol} {A : List Symbol}
    (h : (A ++ E).Nodup) (hs : s ∉ A ++ E) : ((A ++ [s]) ++ E).Nodup := by
  rw [List.append_assoc]
  exact List.perm_middle.nodup_iff.mpr (List.nodup_cons.mpr ⟨hs, h⟩)

/-- The alias for dates is declared once. -/
theorem DatesRepresented.nodup_aliasSymbols {mapping : DateMapping}
    {selects : DataDeclaration → Bool} (h : DatesRepresented hi mapping selects model model')
    (hmodel : model.aliasSymbols.Nodup)
    (hfresh : ∀ name s, hi.find? (.synthetic name) = some s → s ∉ model.enums.map (·.symbol)) :
    model'.aliasSymbols.Nodup := by
  cases h with
  | kept _ => exact hmodel
  | @replaced name definition symbol _ hsymbol =>
    unfold aliasSymbols withDates
    dsimp only
    split
    case isTrue => exact hmodel
    case isFalse hmissing =>
      rw [List.map_append]
      refine nodup_aliasSymbols_cons hmodel fun hmem => ?_
      rcases List.mem_append.mp hmem with hmem | hmem
      · exact hmissing (isSome_findAlias?.mpr hmem)
      · exact hfresh name symbol hsymbol hmem

theorem enums_subset_representEnums (mapping : EnumMapping) :
    (model.representEnums mapping).enums.map (·.symbol) ⊆ model.enums.map (·.symbol) := by
  intro s hs
  obtain ⟨e, he, rfl⟩ := List.mem_map.mp hs
  cases mapping with
  | literalUnion | inlinedLiteralUnion =>
    obtain ⟨e', he', rfl⟩ := List.mem_map.mp he
    exact List.mem_map.mpr ⟨e', List.mem_of_mem_filter he', rfl⟩
  | unmodified =>
    obtain ⟨e', he', rfl⟩ := List.mem_map.mp he
    exact List.mem_map.mpr ⟨e', he', rfl⟩
  | numericPlaceholder =>
    obtain ⟨e', he', rfl⟩ := List.mem_map.mp he
    refine List.mem_map.mpr ⟨e', he', ?_⟩
    split <;> rfl

/-- The type of responses is declared once, and so is the alias for dates. -/
theorem Served.nodup_aliasSymbols {application : Application} {settings : Settings}
    {mapper : Mapper}
    (h : Served hi application settings mapper model model') (hmodel : model.aliasSymbols.Nodup)
    (hfresh : ∀ name s, hi.find? (.synthetic name) = some s → s ∉ model.enums.map (·.symbol)) :
    model'.aliasSymbols.Nodup := by
  cases h with
  | nothing _ => exact hmodel
  | @added response _ _ aliases extended represented _ _ hresponse hextends hrepresented hserved =>
    have hextended : extended.aliasSymbols.Nodup := by
      rw [aliasSymbols, hextends.aliases_eq, hextends.enums_eq, List.map_append]
      rcases hextends.declaresResponse with ⟨-, rfl⟩ | ⟨hnew, definition, -, rfl⟩
      · rw [List.map_nil, List.append_nil]
        exact hmodel
      · refine nodup_aliasSymbols_cons hmodel fun hmem => ?_
        exact (List.mem_append.mp hmem).elim hnew (hfresh _ _ hresponse)
    have hrepresented' : represented.aliasSymbols.Nodup := by
      obtain ⟨dated, hdated, rfl⟩ := hrepresented
      have hnodup := hdated.nodup_aliasSymbols hextended (by rwa [hextends.enums_eq])
      split
      · exact hnodup
      · exact hnodup
    rcases hserved with rfl | ⟨-, rfl⟩
    · exact hrepresented'
    · exact hrepresented'

end Model

/-- What aliases and enums are named after. -/
inductive Builder.AliasOrigin (builder : Builder) : Origin → Prop where
  | date {name : String} {definition : TypeExpr}
      (h : builder.settings.dateMapping.alias? = some (name, definition)) :
      AliasOrigin builder (.synthetic name)
  | enum {e : SourceEnum} (he : e ∈ builder.graph.enums) : AliasOrigin builder (.entity e.name "")
  | union (name : String) : AliasOrigin builder (.entity name "Union")
  | response : AliasOrigin builder (.synthetic "RestResponse")

namespace Compilation

variable {builder : Builder} (c : Compilation builder)

theorem exists_enum_of_mem_final {s : Symbol} (h : s ∈ c.final.enums.map (·.symbol)) :
    ∃ e ∈ builder.graph.enums, c.table.find? (.entity e.name "") = some s := by
  rw [c.enums_final] at h
  have hdated := Model.enums_subset_representEnums _ h
  rw [c.enums_dated, List.map_map] at hdated
  obtain ⟨e, he, rfl⟩ := List.mem_map.mp hdated
  exact ⟨e, he, c.find?_entity (List.mem_append_right _ (List.mem_map_of_mem he))⟩

/-- Every alias and every enum is named after one of these. -/
theorem exists_aliasOrigin {s : Symbol} (h : s ∈ c.final.aliasSymbols) :
    ∃ origin, builder.AliasOrigin origin ∧ c.table.find? origin = some s := by
  rcases List.mem_append.mp h with h | h
  · obtain ⟨a, ha, rfl⟩ := List.mem_map.mp h
    cases c.aliasKind_of_mem_final ha with
    | date hsymbol _ halias => exact ⟨_, .date halias, hsymbol⟩
    | literals _ he hsymbol _ _ =>
      refine ⟨_, .enum he, ?_⟩
      rw [hsymbol]
      exact c.find?_entity (List.mem_append_right _ (List.mem_map_of_mem he))
    | union hsymbol _ _ _ => exact ⟨_, .union _, hsymbol⟩
    | response hsymbol _ _ => exact ⟨_, .response, hsymbol⟩
  · obtain ⟨e, he, hfound⟩ := c.exists_enum_of_mem_final h
    exact ⟨_, .enum he, hfound⟩

theorem symbols_built : c.built.data.map (·.symbol) =
    builder.graph.classes.map (c.table.symbolOf ∘ (·.name)) := by
  have hframes := congrArg (List.map (·.symbol)) c.builds.frames
  rw [Model.frames, List.map_map, List.map_map] at hframes
  exact hframes

theorem exists_class_of_mem_built {s : Symbol} (h : s ∈ c.built.data.map (·.symbol)) :
    ∃ source ∈ builder.graph.classes, c.table.find? (.entity source.name "") = some s := by
  rw [c.symbols_built] at h
  obtain ⟨source, hsource, rfl⟩ := List.mem_map.mp h
  exact ⟨source, hsource, c.find?_entity (List.mem_append_left _ (List.mem_map_of_mem hsource))⟩

theorem enumSymbols_built : c.built.enums.map (·.symbol) =
    (builder.graph.enums.map (·.name)).map c.table.symbolOf := by
  rw [c.builds.enums, List.map_map, List.map_map]
  rfl

/-- No enum is named after a generated declaration. -/
theorem not_mem_enumSymbols_built {name : String} {s : Symbol}
    (h : c.table.find? (.synthetic name) = some s) : s ∉ c.built.enums.map (·.symbol) := by
  intro hmem
  rw [c.enumSymbols_built] at hmem
  obtain ⟨entity, hentity, rfl⟩ := List.mem_map.mp hmem
  exact nomatch SymbolTable.find?_injective h (c.find?_entity (List.mem_append_right _ hentity))

section Nodup

variable (hnames : builder.graph.declaredNames.Nodup)

include hnames

/-- Different entities have different symbols. -/
theorem nodup_entitySymbols : (builder.graph.declaredNames.map c.table.symbolOf).Nodup := by
  refine hnames.map_on fun name hname name' hname' heq => ?_
  have hfound := c.find?_entity hname
  rw [heq] at hfound
  exact (Origin.entity.inj (SymbolTable.find?_injective hfound (c.find?_entity hname'))).1

theorem nodup_classSymbols : (c.built.data.map (·.symbol)).Nodup := by
  have hnodup := c.nodup_entitySymbols hnames
  rw [SourceGraph.declaredNames, List.map_append] at hnodup
  rw [c.symbols_built, ← List.map_map]
  exact (List.nodup_append.mp hnodup).1

theorem nodup_aliasSymbols_built : c.built.aliasSymbols.Nodup := by
  have hnodup := c.nodup_entitySymbols hnames
  rw [SourceGraph.declaredNames, List.map_append] at hnodup
  rw [Model.aliasSymbols, c.builds.aliases, c.enumSymbols_built]
  exact (List.nodup_append.mp hnodup).2.1

theorem nodup_aliasSymbols_dated : c.dated.aliasSymbols.Nodup := by
  have hreconciled : c.reconciled.aliasSymbols.Nodup := c.nodup_aliasSymbols_built hnames
  exact c.dates.nodup_aliasSymbols hreconciled fun name s hs => c.not_mem_enumSymbols_built hs

theorem nodup_aliasSymbols_represented : c.represented.aliasSymbols.Nodup := by
  refine (Model.perm_representEnums c.fresh_dated _).nodup_iff.mpr ?_
  have hkept : (c.dated.keptEnums builder.settings.enumMapping).Sublist c.dated.enums := by
    unfold Model.keptEnums
    split
    · exact List.filter_sublist
    · exact List.Sublist.refl _
  exact (c.nodup_aliasSymbols_dated hnames).sublist
    (List.Sublist.append (List.Sublist.refl _) (hkept.map _))

/-- Unions are named after different classes. -/
theorem nodup_unions {unions : List (Symbol × AliasDeclaration)}
    (h : List.Forall₂ (Model.IsUnionOf c.early c.table c.represented)
      c.represented.unionBases unions) : (unions.map (·.2.symbol)).Nodup := by
  refine nodup_map_of_forall₂ (f := DataDeclaration.symbol) h ?_ ?_
  · intro base hbase base' hbase' union union' hunion hunion' heq
    obtain ⟨source, -, hsymbol, hfound⟩ := c.find?_union (List.mem_of_mem_filter hbase) hunion
    obtain ⟨source', -, hsymbol', hfound'⟩ := c.find?_union (List.mem_of_mem_filter hbase') hunion'
    rw [heq] at hfound
    have hname := (Origin.entity.inj (SymbolTable.find?_injective hfound hfound')).1
    rw [hsymbol, hsymbol', hname]
  · have hdata : (c.represented.data.map (·.symbol)).Nodup := by
      rw [Model.symbols_eq_of_frames c.frames_represented]
      exact c.nodup_classSymbols hnames
    exact hdata.sublist (List.filter_sublist.map _)

omit hnames in
/-- The aliases and enums before unions are declared are not named after unions. -/
theorem ne_of_mem_represented {s s' : Symbol} (h : s ∈ c.represented.aliasSymbols) {name : String}
    (h' : c.table.find? (.entity name "Union") = some s') : s ≠ s' := by
  rcases List.mem_append.mp ((Model.perm_representEnums c.fresh_dated _).subset h) with h | h
  · obtain ⟨a, ha, rfl⟩ := List.mem_map.mp h
    obtain ⟨_, _, -, hsymbol, -⟩ := c.exists_of_mem_aliases_dated ha
    exact SymbolTable.ne_of_find? hsymbol h' (by simp)
  · obtain ⟨e, he, rfl⟩ := List.mem_map.mp h
    have hdated : e ∈ c.dated.enums := by
      unfold Model.keptEnums at he
      split at he
      · exact List.mem_of_mem_filter he
      · exact he
    rw [c.enums_dated] at hdated
    obtain ⟨source, hsource, rfl⟩ := List.mem_map.mp hdated
    have hentity := c.find?_entity (List.mem_append_right _ (List.mem_map_of_mem hsource))
    exact SymbolTable.ne_of_find? hentity h' (by simp)

theorem nodup_aliasSymbols_united : c.united.aliasSymbols.Nodup := by
  have hrepresented := c.nodup_aliasSymbols_represented hnames
  have hunites := c.unites
  generalize hunited : c.united = united at hunites ⊢
  cases hunites with
  | kept _ => exact hrepresented
  | @declared unions _ hunions =>
    have hperm : ((c.represented.aliases ++ unions.map (·.2)).map (·.symbol) ++
        c.represented.enums.map (·.symbol)).Perm
        (c.represented.aliasSymbols ++ unions.map (·.2.symbol)) := by
      rw [List.map_append, List.map_map, Model.aliasSymbols, List.append_assoc, List.append_assoc]
      exact List.perm_append_comm.append_left _
    refine hperm.nodup_iff.mpr (List.nodup_append.mpr ⟨hrepresented,
      c.nodup_unions hnames hunions, ?_⟩)
    intro s hs s' hs'
    obtain ⟨union, hunion, rfl⟩ := List.mem_map.mp hs'
    obtain ⟨base, hbase, hunion⟩ := exists_mem_of_forall₂ hunions hunion
    obtain ⟨source, -, -, hfound⟩ := c.find?_union (List.mem_of_mem_filter hbase) hunion
    exact c.ne_of_mem_represented hs hfound

/-- No two aliases or enums share a symbol. -/
theorem nodup_aliasSymbols : c.final.aliasSymbols.Nodup := by
  have hrevived : c.revived.aliasSymbols.Nodup := by
    rw [Model.aliasSymbols, c.aliases_revived, c.enums_revived, ← c.enums_united]
    exact c.nodup_aliasSymbols_united hnames
  have hfresh : ∀ name s, c.table.find? (.synthetic name) = some s →
      s ∉ c.revived.enums.map (·.symbol) := by
    intro name s hs hmem
    rw [c.enums_revived, ← c.enums_final] at hmem
    obtain ⟨e, -, hfound⟩ := c.exists_enum_of_mem_final hmem
    cases SymbolTable.find?_injective hs hfound
  have hserved : c.served.aliasSymbols.Nodup := by
    have hserves := c.serves
    unfold Model.ServedFor at hserves
    split at hserves
    · exact hserves.nodup_aliasSymbols hrevived hfresh
    · exact hserves ▸ hrevived
  rwa [final, Model.aliasSymbols, Model.aliases_withOptionalForm, Model.enums_withOptionalForm]

end Nodup

end Compilation

/-! ## Declarations of endpoints -/

/-- The roles of the declarations of endpoints. -/
def SourceGraph.roles (graph : SourceGraph) (settings : Settings) : List Service.Role :=
  match graph.rest with
  | some application => application.roles settings
  | none => []

theorem Service.Role.origin_ne_queryParams (role : Service.Role) (name : String) :
    role.origin ≠ .entity name "QueryParams" := by
  cases role with
  | surface group => cases h : group.key <;> simp [origin, h, GroupKey.origin]
  | httpClient => simp [origin]
  | client group => cases h : group.key <;> simp [origin, h, GroupKey.origin]

/-- Whether symbols are those of the declarations of roles and of query beans. -/
structure AddedSymbols (table : SymbolTable) (roles : List Service.Role)
    (declared beans : List Symbol) : Prop where
  role : List.Forall₂ (fun role s => table.find? role.origin = some s) roles declared
  bean : ∀ s ∈ beans, ∃ name, table.find? (.entity name "QueryParams") = some s
  nodup : beans.Nodup

namespace AddedSymbols

variable {table : SymbolTable} {roles : List Service.Role} {declared beans : List Symbol}
  (h : AddedSymbols table roles declared beans)

include h

theorem nodup_declared_iff : declared.Nodup ↔ (roles.map (·.origin)).Nodup := by
  constructor
  · intro hnodup
    refine nodup_map_of_forall₂ (f := id) h.role.flip ?_ (by rwa [List.map_id])
    intro s _ s' _ role role' hs hs' heq
    exact Option.some.inj (hs.symm.trans (heq ▸ hs'))
  · intro hnodup
    rw [← List.map_id declared]
    refine nodup_map_of_forall₂ h.role ?_ hnodup
    intro role _ role' _ s s' hs hs' heq
    obtain rfl : s = s' := heq
    exact SymbolTable.find?_injective hs hs'

end AddedSymbols

theorem Model.Served.exists_addedSymbols {hi : SymbolTable} {application : Application}
    {settings : Settings} {mapper : Mapper} {model served : Model}
    (h : Served hi application settings mapper model served) :
    ∃ declared beans, AddedSymbols hi (application.roles settings) declared beans ∧
      served.data.map (·.symbol) = model.data.map (·.symbol) ++ declared ++ beans := by
  cases h with
  | nothing hmode =>
    have hroles : application.roles settings = [] := by
      simp [Application.roles, hmode, RestCodegen.surface, RestCodegen.client]
    exact ⟨[], [], ⟨hroles ▸ .nil, fun _ h => absurd h List.not_mem_nil, List.nodup_nil⟩, by simp⟩
  | @added _ declared beans _ extended represented _ _ _ hextends hrepresented hserved =>
    refine ⟨declared.map (·.symbol), beans.map (·.symbol), ⟨?_, fun s hs => ?_, ?_⟩, ?_⟩
    · exact List.forall₂_map_right_iff.mpr
        (hextends.declaredFor.imp fun _ _ hdeclared => hdeclared.1)
    · obtain ⟨b, hb, rfl⟩ := List.mem_map.mp hs
      obtain ⟨_, -, bean, -, hfound, -⟩ := hextends.areBeans.each b hb
      exact ⟨bean.name, hfound⟩
    · exact hextends.areBeans.nodup
    · rw [symbols_eq_of_frames (frames_of_added hrepresented hserved), hextends.data_eq,
        List.map_append, List.map_append]

namespace Compilation

variable {builder : Builder} (c : Compilation builder)

theorem exists_addedSymbols :
    ∃ declared beans,
      AddedSymbols c.table (builder.graph.roles builder.settings) declared beans ∧
      c.final.data.map (·.symbol) = c.built.data.map (·.symbol) ++ declared ++ beans := by
  have hrevived := Model.symbols_eq_of_frames c.frames_revived
  have hfinal : c.final.data.map (·.symbol) = c.served.data.map (·.symbol) :=
    Model.symbols_eq_of_frames (Model.frames_withOptionalForm _)
  rw [hfinal, ← hrevived]
  unfold SourceGraph.roles
  rcases c.served_cases with ⟨hrest, heq⟩ | ⟨application, hrest, hserves⟩
  · rw [hrest]
    exact ⟨[], [], ⟨.nil, nofun, List.nodup_nil⟩, by rw [heq]; simp⟩
  · rw [hrest]
    exact hserves.exists_addedSymbols

section Distinct

variable (hnames : builder.graph.declaredNames.Nodup)

include hnames

/-- A class is not named after what an alias or enum is named after. -/
theorem ne_of_mem_aliasSymbols {s s' : Symbol} (h : s ∈ c.built.data.map (·.symbol))
    (h' : s' ∈ c.final.aliasSymbols) : s ≠ s' := by
  obtain ⟨source, hsource, hfound⟩ := c.exists_class_of_mem_built h
  obtain ⟨origin, horigin, hfound'⟩ := c.exists_aliasOrigin h'
  refine SymbolTable.ne_of_find? hfound hfound' ?_
  cases horigin with
  | @enum e he =>
    rintro heq
    have hname := (Origin.entity.inj heq).1
    exact (List.nodup_append.mp hnames).2.2 _ (List.mem_map_of_mem hsource) _
      (List.mem_map_of_mem he) hname
  | date _ | union _ | response => simp

/-- Besides the declarations of roles, no two declarations share a symbol. -/
theorem nodup_others {declared beans : List Symbol}
    (h : AddedSymbols c.table (builder.graph.roles builder.settings) declared beans) :
    (c.built.data.map (·.symbol) ++ (beans ++ c.final.aliasSymbols)).Nodup := by
  rw [List.nodup_append, List.nodup_append]
  refine ⟨c.nodup_classSymbols hnames, ⟨h.nodup, c.nodup_aliasSymbols hnames, ?_⟩, ?_⟩
  · intro s hs s' hs'
    obtain ⟨name, hfound⟩ := h.bean s hs
    obtain ⟨origin, horigin, hfound'⟩ := c.exists_aliasOrigin hs'
    refine SymbolTable.ne_of_find? hfound hfound' ?_
    cases horigin <;> simp
  · intro s hs s' hs'
    rcases List.mem_append.mp hs' with hs' | hs'
    · obtain ⟨source, -, hfound⟩ := c.exists_class_of_mem_built hs
      obtain ⟨name, hfound'⟩ := h.bean s' hs'
      exact SymbolTable.ne_of_find? hfound hfound' (by simp)
    · exact c.ne_of_mem_aliasSymbols hnames hs hs'

/-- All declared symbols are distinct exactly if the roles are named after different things, and not
after classes, aliases or enums. -/
theorem nodup_declaredSymbols_iff :
    c.final.declaredSymbols.Nodup ↔
      ((builder.graph.roles builder.settings).map (·.origin)).Nodup ∧
        ∀ role ∈ builder.graph.roles builder.settings,
          (∀ source ∈ builder.graph.classes, role.origin ≠ .entity source.name "") ∧
            ∀ s ∈ c.final.aliasSymbols, c.table.origin? s ≠ some role.origin := by
  obtain ⟨declared, beans, hadded, hdata⟩ := c.exists_addedSymbols
  have hperm : c.final.declaredSymbols.Perm
      (declared ++ (c.built.data.map (·.symbol) ++ (beans ++ c.final.aliasSymbols))) := by
    rw [Model.declaredSymbols, hdata, List.append_assoc, List.append_assoc]
    exact List.perm_append_comm_assoc _ _ _
  rw [hperm.nodup_iff, List.nodup_append, and_iff_right (c.nodup_others hnames hadded)]
  refine and_congr hadded.nodup_declared_iff ⟨fun hdisjoint role hrole => ?_, fun hroles => ?_⟩
  · obtain ⟨s, hs, hfound⟩ := exists_mem_of_forall₂ hadded.role.flip hrole
    refine ⟨fun source hsource heq => ?_, fun s' hs' heq => ?_⟩
    · have hclass : s ∈ c.built.data.map (·.symbol) := by
        rw [heq, c.find?_entity (List.mem_append_left _ (List.mem_map_of_mem hsource))] at hfound
        rw [c.symbols_built, ← Option.some.inj hfound]
        exact List.mem_map_of_mem hsource
      exact hdisjoint s hs s (List.mem_append_left _ hclass) rfl
    · obtain ⟨origin, -, hfound'⟩ := c.exists_aliasOrigin hs'
      rw [SymbolTable.origin?_of_find? hfound', Option.some.injEq] at heq
      rw [heq, hfound] at hfound'
      refine hdisjoint s hs s' (List.mem_append_right _ (List.mem_append_right _ hs')) ?_
      exact Option.some.inj hfound'
  · rintro s hs s' hs' rfl
    obtain ⟨role, hrole, hfound⟩ := exists_mem_of_forall₂ hadded.role hs
    rcases List.mem_append.mp hs' with hclass | hother
    · obtain ⟨source, hsource, hfound'⟩ := c.exists_class_of_mem_built hclass
      exact (hroles role hrole).1 source hsource (SymbolTable.find?_injective hfound hfound')
    · rcases List.mem_append.mp hother with hbean | halias
      · obtain ⟨name, hfound'⟩ := hadded.bean s hbean
        exact role.origin_ne_queryParams name (SymbolTable.find?_injective hfound hfound')
      · exact (hroles role hrole).2 s halias (SymbolTable.origin?_of_find? hfound)

end Distinct

/-- Every declared symbol was issued. -/
theorem exists_origin {s : Symbol} (h : s ∈ c.final.declaredSymbols) :
    ∃ origin, c.table.find? origin = some s := by
  obtain ⟨declared, beans, hadded, hdata⟩ := c.exists_addedSymbols
  rcases List.mem_append.mp h with h | h
  · rw [hdata, List.mem_append, List.mem_append] at h
    rcases h with (h | h) | h
    · obtain ⟨source, -, hfound⟩ := c.exists_class_of_mem_built h
      exact ⟨_, hfound⟩
    · obtain ⟨role, -, hfound⟩ := exists_mem_of_forall₂ hadded.role h
      exact ⟨_, hfound⟩
    · obtain ⟨name, hfound⟩ := hadded.bean s h
      exact ⟨_, hfound⟩
  · obtain ⟨origin, -, hfound⟩ := c.exists_aliasOrigin h
    exact ⟨origin, hfound⟩

end Compilation

/-! ## Names -/

/-- Where classes and enums have different names, all declarations have different names exactly if
the declarations of endpoints are named after different things, and not after a class, or an alias
or enum that is declared. -/
theorem nodup_fullNames_iff {graph : SourceGraph} {settings : Settings} {out : Compiled}
    (hnames : graph.declaredNames.Nodup) (h : compile graph settings = .ok out) :
    (out.model.declarations.map fun d => out.names.fullName? d.symbol).Nodup ↔
      ((graph.roles settings).map (·.origin)).Nodup ∧
        ∀ role ∈ graph.roles settings,
          (∀ source ∈ graph.classes, role.origin ≠ .entity source.name "") ∧
            (∀ a ∈ out.model.aliases, out.names.origin? a.symbol ≠ some role.origin) ∧
              ∀ e ∈ out.model.enums, out.names.origin? e.symbol ≠ some role.origin := by
  obtain ⟨c, hresolve, hmodel, hconflict⟩ := exists_compilation h
  have hperm := c.final.perm_symbols_order out.names settings.sortMode
  rw [← hmodel] at hperm
  have hissued : ∀ s ∈ out.model.declarations.map (·.symbol),
      (out.names.fullName? s).isSome = true := by
    intro s hs
    obtain ⟨origin, hfound⟩ := c.exists_origin (hperm.subset hs)
    exact SymbolTable.isSome_fullName?_of_resolve hresolve (SymbolTable.origin?_of_find? hfound)
  have haliases : ∀ role : Service.Role,
      (∀ s ∈ c.final.aliasSymbols, c.table.origin? s ≠ some role.origin) ↔
        (∀ a ∈ out.model.aliases, out.names.origin? a.symbol ≠ some role.origin) ∧
          ∀ e ∈ out.model.enums, out.names.origin? e.symbol ≠ some role.origin := by
    intro role
    simp only [hmodel, (c.final.perm_aliases_order out.names settings.sortMode).mem_iff,
      (c.final.perm_enums_order out.names settings.sortMode).mem_iff,
      SymbolTable.origin?_of_resolve hresolve, Model.aliasSymbols, List.forall_mem_append,
      List.forall_mem_map]
  calc (out.model.declarations.map fun d => out.names.fullName? d.symbol).Nodup
      ↔ ((out.model.declarations.map (·.symbol)).map out.names.fullName?).Nodup := by
        rw [List.map_map]
        rfl
    _ ↔ (out.model.declarations.map (·.symbol)).Nodup :=
        Names.nodup_map_fullName?_iff hconflict hissued
    _ ↔ c.final.declaredSymbols.Nodup := hperm.nodup_iff
    _ ↔ _ := by
        rw [c.nodup_declaredSymbols_iff hnames]
        simp only [haliases]

/-- The interface of the endpoint has the name of the class that it belongs to. -/
theorem not_nodup_fullNames_gift : giftGraph.declaredNames.Nodup ∧
    ∃ out, compile giftGraph giftSettings = .ok out ∧
      ¬(out.model.declarations.map fun d => out.names.fullName? d.symbol).Nodup := by
  have hnames : giftGraph.declaredNames.Nodup := by decide
  obtain ⟨out, hout⟩ := exists_compile_gift
  refine ⟨hnames, out, hout, fun hnodup => ?_⟩
  have hroles : (giftGraph.roles giftSettings).map (·.origin) = [.entity "Gift" ""] := by cbv
  obtain ⟨role, hrole, horigin⟩ := List.mem_map.mp (hroles ▸ List.mem_cons_self)
  have hclass := (((nodup_fullNames_iff hnames hout).mp hnodup).2 role hrole).1
  exact hclass { name := "Gift", parent := some (.named "Box" [.named "Date" []]) }
    (by simp [giftGraph]) horigin

end Typings
