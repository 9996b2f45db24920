import Typings.Proofs.Compilation

/-!
# The choices that types are rewritten by

The types of a model are rewritten three times: dates become an alias, references to inlined enums
become their values, and references to the bases of unions become the aliases of the unions. The
types of properties are rewritten when these choices are made, and the types of services later, when
there are more symbols and more declarations. Both come out the same: one function of a type
describes them.

## Main definitions

* `Choices`, `Choices.apply`: the choices, and a type rewritten by them.
* `Compilation.choices`: the choices of a compilation.

## Main results

* `Model.DatesRepresented.data_eq`: representing dates rewrites all selected types alike.
* `Compilation.properties_united`: properties are rewritten by the choices.
* `Compilation.data_served`: so are the declarations of services, and nothing else changes.
-/

namespace Typings

/-! ## Types that are not rewritten -/

namespace TypeExpr

/-- The type with its dates replaced by an alias, if there is one. -/
def dated (alias? : Option Symbol) (t : TypeExpr) : TypeExpr :=
  match alias? with
  | none => t
  | some symbol => t.transform fun n => if n.isTemporal then .bare symbol else n

theorem dated_eq_self {alias? : Option Symbol} {t : TypeExpr}
    (h : ∀ n ∈ t.nodes, n.isTemporal = false) : t.dated alias? = t := by
  unfold dated
  split
  · rfl
  · apply transform_eq_self
    intro n hn
    rw [h n hn]
    rfl

theorem isOptional_dated (alias? : Option Symbol) (t : TypeExpr) :
    (t.dated alias?).isOptional = t.isOptional := by
  unfold dated
  split
  · rfl
  · cases t with
    | primitive kind => cases kind <;> rfl
    | _ => rfl

/-- Replacing references does not make a type optional if no replacement is. -/
theorem isOptional_replaceBare {substitution : Symbol → Option TypeExpr}
    (h : ∀ s r, substitution s = some r → r.isOptional = false) (t : TypeExpr) :
    (t.replaceBare substitution).isOptional = t.isOptional := by
  cases t with
  | reference s args =>
    unfold replaceBare
    rw [transform_eq]
    cases args with
    | cons arg args => rfl
    | nil =>
      show ((substitution s).getD (.bare s)).isOptional = false
      cases hs : substitution s with
      | none => rfl
      | some r => exact h s r hs
  | _ => rfl

theorem isOptional_literalUnion (texts : List String) :
    (literalUnion texts).isOptional = false := by
  unfold literalUnion
  split <;> rfl

theorem replaceBare_none (t : TypeExpr) : t.replaceBare (fun _ => none) = t := by
  apply transform_eq_self
  intro n _
  rw [Option.bind_fun_none, Option.getD_none]

end TypeExpr

theorem map_eq_of_fixed {α : Type} {f : α → α} {as : List α} (h : ∀ a ∈ as, f a = a) :
    as.map f = as := by
  rw [List.map_congr_left h, List.map_id']

namespace DataDeclaration

/-- Changing the types of a declaration with a function that fixes them changes nothing. -/
theorem mapTypes_eq_self {f : TypeExpr → TypeExpr} (d : DataDeclaration)
    (h : ∀ t ∈ d.types, f t = t) : d.mapTypes f = d := by
  simp only [types, List.forall_mem_append, List.forall_mem_map, List.forall_mem_flatMap,
    List.forall_mem_singleton] at h
  obtain ⟨⟨hproperties, hmethods⟩, hctor⟩ := h
  have hproperties' : (d.properties.map fun p => { p with type := f p.type }) = d.properties :=
    map_eq_of_fixed fun p hp => by rw [hproperties p hp]
  have hmethods' : (d.methods.map fun m => { m with
      parameters := m.parameters.map fun p => { p with type := f p.type }
      result := f m.result }) = d.methods := by
    apply map_eq_of_fixed
    intro m hm
    obtain ⟨hparameters, hresult⟩ := hmethods m hm
    rw [hresult, map_eq_of_fixed fun p hp => by rw [hparameters p hp]]
  have hctor' : (d.ctor.map fun c => { c with
      parameters := c.parameters.map fun p => { p with type := f p.type } }) = d.ctor := by
    cases hc : d.ctor with
    | none => rfl
    | some c =>
      have hparameters := hctor c (by rw [hc, Option.toList_some]; exact List.mem_cons_self)
      rw [Option.map_some, map_eq_of_fixed fun p hp => by rw [hparameters p hp]]
  unfold mapTypes
  rw [hproperties', hmethods', hctor']

theorem mapTypes_mapTypes (f g : TypeExpr → TypeExpr) (d : DataDeclaration) :
    (d.mapTypes f).mapTypes g = d.mapTypes fun t => g (f t) := by
  simp [mapTypes, Function.comp_def]

/-- Types are changed twice by a selection that does not look at types. -/
theorem map_mapTypes_map {selects : DataDeclaration → Bool}
    (hselects : ∀ (f : TypeExpr → TypeExpr) d, selects (d.mapTypes f) = selects d)
    (f g : TypeExpr → TypeExpr) (data : List DataDeclaration) :
    ((data.map fun d => if selects d then d.mapTypes f else d).map fun d =>
        if selects d then d.mapTypes g else d) =
      data.map fun d => if selects d then d.mapTypes fun t => g (f t) else d := by
  rw [List.map_map]
  apply List.map_congr_left
  intro d _
  rw [Function.comp]
  by_cases hselected : selects d = true
  · rw [if_pos hselected, if_pos hselected, if_pos (by rw [hselects, hselected]), mapTypes_mapTypes]
  · rw [if_neg hselected, if_neg hselected, if_neg hselected]

end DataDeclaration

/-! ## Choices -/

/-- What dates, enums and the bases of unions are replaced by. -/
structure Choices where
  date : Option Symbol
  enum : Symbol → Option TypeExpr
  union : Symbol → Option Symbol

namespace Choices

variable (choices : Choices)

/-- A type with its dates, its enums and its unions as they are chosen. -/
def apply (t : TypeExpr) : TypeExpr :=
  ((t.dated choices.date).replaceBare choices.enum).replaceBare fun s => (choices.union s).map .bare

/-- A reference with type arguments keeps its symbol. -/
theorem apply_reference (s : Symbol) (arg : TypeExpr) (args : List TypeExpr) :
    choices.apply (.reference s (arg :: args)) =
      .reference s (choices.apply arg :: args.map choices.apply) := by
  unfold apply TypeExpr.dated
  split <;> simp [TypeExpr.replaceBare, TypeExpr.transform, TypeExpr.isTemporal,
    TypeExpr.bareSymbol?, Function.comp_def]

theorem apply_optional (t : TypeExpr) :
    choices.apply (.optional t) = .optional (choices.apply t) := by
  unfold apply TypeExpr.dated
  split <;> simp [TypeExpr.replaceBare, TypeExpr.transform, TypeExpr.isTemporal,
    TypeExpr.bareSymbol?]

theorem apply_shape (fields : List (String × TypeExpr)) :
    choices.apply (.shape fields) = .shape (fields.map fun f => (f.1, choices.apply f.2)) := by
  unfold apply TypeExpr.dated
  split <;> simp [TypeExpr.replaceBare, TypeExpr.transform, TypeExpr.isTemporal,
    TypeExpr.bareSymbol?, Function.comp_def]

theorem apply_intersection (types : List TypeExpr) :
    choices.apply (.intersection types) = .intersection (types.map choices.apply) := by
  unfold apply TypeExpr.dated
  split <;> simp [TypeExpr.replaceBare, TypeExpr.transform, TypeExpr.isTemporal,
    TypeExpr.bareSymbol?, Function.comp_def]

end Choices

/-! ## Models whose types are rewritten -/

/-- The alias that stands for dates, if one was issued. -/
def DateMapping.symbol? (mapping : DateMapping) (table : SymbolTable) : Option Symbol :=
  mapping.alias?.bind fun a => table.find? (.synthetic a.1)

namespace Model

variable {model model' : Model} {table : SymbolTable} {settings : Settings}

/-- Representing dates rewrites all types of the selected declarations, be it that there is no date
among them. -/
theorem DatesRepresented.data_eq {mapping : DateMapping} {selects : DataDeclaration → Bool}
    (h : DatesRepresented table mapping selects model model') :
    model'.data = model.data.map fun d =>
      if selects d then d.mapTypes (·.dated (mapping.symbol? table)) else d := by
  cases h with
  | kept hnothing =>
    symm
    apply map_eq_of_fixed
    intro d hd
    split
    case isFalse => rfl
    case isTrue hselected =>
      apply d.mapTypes_eq_self
      intro t ht
      rcases hnothing with hnone | hcount
      · rw [DateMapping.symbol?, hnone]
        rfl
      · apply TypeExpr.dated_eq_self
        intro n hn
        simp only [dateCount, List.countP_eq_zero, Bool.not_eq_true] at hcount
        have hd' : d ∈ model.data.filter selects := List.mem_filter.mpr ⟨hd, hselected⟩
        exact hcount n (List.mem_flatMap.mpr ⟨d, hd', List.mem_flatMap.mpr ⟨t, ht, hn⟩⟩)
  | @replaced name definition symbol halias hsymbol =>
    have hissued : mapping.symbol? table = some symbol := by
      rw [DateMapping.symbol?, halias, Option.bind_some, hsymbol]
    rw [hissued]
    rfl

/-- Representing enums rewrites the types of all declarations by the record of inlined enums, be it
that none is inlined. -/
theorem data_representEnums_eq (hempty : model.inlinedEnums = []) (mapping : EnumMapping) :
    (model.representEnums mapping).data = model.data.map
      (·.mapTypes
        (·.replaceBare fun s => (model.representEnums mapping).inlinedEnums.lookup s)) := by
  by_cases hmapping : mapping = .inlinedLiteralUnion
  · subst hmapping
    rfl
  · rw [data_representEnums hmapping, inlinedEnums_representEnums hmapping, hempty]
    symm
    apply map_eq_of_fixed
    intro d _
    apply d.mapTypes_eq_self
    intro t _
    exact t.replaceBare_none

/-- The alias of the union of a base, if unions are used. -/
def unionOf? (settings : Settings) (model : Model) (s : Symbol) : Option Symbol :=
  if settings.taggedUnions then lastOf? model.unionAliases s else none

theorem unionAliases_mapDataTypes (selects : DataDeclaration → Bool) (f : TypeExpr → TypeExpr) :
    (model.mapDataTypes selects f).unionAliases = model.unionAliases := by
  unfold unionAliases mapDataTypes
  rw [List.filterMap_map]
  apply List.filterMap_congr
  intro d _
  rw [Function.comp]
  split <;> rfl

theorem unionOf?_useUnions (selects : DataDeclaration → Bool) :
    (model.useUnions selects).unionOf? settings = model.unionOf? settings := by
  funext s
  rw [unionOf?, useUnions, unionAliases_mapDataTypes]
  rfl

/-- Uniting rewrites the types of properties by the aliases of unions, be it that there are none. -/
theorem United.properties_eq {lo hi : SymbolTable} {united : Model}
    (h : United lo hi settings model united) :
    united.data.map (·.properties) = model.data.map fun d => d.properties.map fun p =>
      { p with type := p.type.replaceBare fun s => (united.unionOf? settings s).map .bare } := by
  cases h with
  | kept hoff =>
    apply List.map_congr_left
    intro d _
    symm
    apply map_eq_of_fixed
    intro p _
    have hnone : (fun s => (model.unionOf? settings s).map TypeExpr.bare) = fun _ => none := by
      funext s
      rw [unionOf?, hoff]
      rfl
    rw [hnone, TypeExpr.replaceBare_none]
  | @declared unions hon _ =>
    have hused : (fun s => (((model.withUnions unions).useUnions fun _ => true).unionOf?
        settings s).map TypeExpr.bare) =
          fun s => (lastOf? (model.withUnions unions).unionAliases s).map .bare := by
      funext s
      rw [unionOf?_useUnions, unionOf?, if_pos hon]
    rw [hused]
    simp only [useUnions, mapDataTypes, withUnions, List.map_map]
    apply List.map_congr_left
    intro d _
    simp only [Function.comp, if_true, DataDeclaration.mapTypes]
    split <;> rfl

/-- The choices that late declarations are rewritten by. -/
def lateChoices (model : Model) (table : SymbolTable) (settings : Settings) : Choices where
  date := settings.dateMapping.symbol? table
  enum s := model.inlinedEnums.lookup s
  union := model.unionOf? settings

/-- Representing services rewrites the types of new declarations, and nothing else changes. -/
theorem ServicesRepresented.data_eq {beans : List Symbol} {represented : Model}
    (h : ServicesRepresented table settings beans model represented) :
    represented.data = model.data.map fun d =>
      if isNew beans d then d.mapTypes (model.lateChoices table settings).apply else d := by
  obtain ⟨dated, hdated, rfl⟩ := h
  have hselects : ∀ (f : TypeExpr → TypeExpr) d, isNew beans (d.mapTypes f) = isNew beans d :=
    fun _ _ => rfl
  have haliases : (dated.inlineEnums (isNew beans)).unionAliases = model.unionAliases := by
    rw [inlineEnums, unionAliases_mapDataTypes]
    unfold unionAliases
    rw [hdated.data_eq, List.filterMap_map]
    apply List.filterMap_congr
    intro d _
    rw [Function.comp]
    split <;> rfl
  have hinlined : (dated.inlineEnums (isNew beans)).data = model.data.map fun d =>
      if isNew beans d then d.mapTypes fun t =>
        (t.dated (settings.dateMapping.symbol? table)).replaceBare fun s =>
          model.inlinedEnums.lookup s
      else d := by
    simp only [inlineEnums, mapDataTypes]
    rw [hdated.data_eq, hdated.inlinedEnums]
    exact DataDeclaration.map_mapTypes_map hselects _ _ _
  split
  case isTrue hon =>
    have happly : (model.lateChoices table settings).apply = fun t => ((t.dated
        (settings.dateMapping.symbol? table)).replaceBare fun s =>
          model.inlinedEnums.lookup s).replaceBare
          fun s => (lastOf? model.unionAliases s).map .bare := by
      funext t
      simp only [lateChoices, Choices.apply, unionOf?, hon, if_true]
    simp only [useUnions, mapDataTypes]
    rw [haliases, hinlined, happly]
    exact DataDeclaration.map_mapTypes_map hselects _ _ _
  case isFalse hoff =>
    have happly : (model.lateChoices table settings).apply = fun t => (t.dated
        (settings.dateMapping.symbol? table)).replaceBare fun s => model.inlinedEnums.lookup s := by
      funext t
      simp only [lateChoices, Choices.apply, unionOf?, hoff]
      exact TypeExpr.replaceBare_none _
    rw [hinlined, happly]

end Model

/-! ## The choices of a compilation -/

namespace Compilation

variable {builder : Builder} (c : Compilation builder)

/-- What dates, enums and the bases of unions are replaced by. -/
def choices : Choices where
  date := builder.settings.dateMapping.symbol? c.table
  enum s := c.represented.inlinedEnums.lookup s
  union := c.united.unionOf? builder.settings

/-- No choice makes a type optional. -/
theorem isOptional_apply (t : TypeExpr) : (c.choices.apply t).isOptional = t.isOptional := by
  unfold Choices.apply
  rw [TypeExpr.isOptional_replaceBare, TypeExpr.isOptional_replaceBare, TypeExpr.isOptional_dated]
  · intro s r hr
    obtain ⟨texts, rfl⟩ := c.inlinesLiterals s r hr
    exact TypeExpr.isOptional_literalUnion texts
  · intro s r hr
    obtain ⟨union, -, rfl⟩ := Option.map_eq_some_iff.mp hr
    rfl

theorem apply_orAbsent (t : TypeExpr) :
    c.choices.apply t.orAbsent = (c.choices.apply t).orAbsent := by
  unfold TypeExpr.orAbsent
  rw [c.isOptional_apply]
  split
  · rfl
  · exact c.choices.apply_optional t

/-- Properties are rewritten by the choices. -/
theorem properties_united :
    c.united.data.map (·.properties) = c.reconciled.data.map fun d =>
      d.properties.map fun p => { p with type := c.choices.apply p.type } := by
  rw [c.unites.properties_eq, Model.data_representEnums_eq c.inlinedEnums_dated, c.dates.data_eq,
    List.map_map, List.map_map]
  apply List.map_congr_left
  intro d _
  simp only [Function.comp, if_true, DataDeclaration.mapTypes, List.map_map]
  rfl

variable {d : DataDeclaration}

/-- Before classes are revived there is no code. -/
theorem methods_united (hd : d ∈ c.united.data) : d.methods = [] ∧ d.ctor = none := by
  have hmapped : ∀ (d : DataDeclaration) (f : TypeExpr → TypeExpr), d.methods = [] ∧ d.ctor = none →
      (d.mapTypes f).methods = [] ∧ (d.mapTypes f).ctor = none := by
    intro d f ⟨hmethods, hctor⟩
    rw [DataDeclaration.mapTypes, hmethods, hctor]
    exact ⟨rfl, rfl⟩
  have hreconciled : ∀ d ∈ c.reconciled.data, d.methods = [] ∧ d.ctor = none := by
    intro d hd
    obtain ⟨_, -, b, -, hbuilds, hreconciles⟩ := c.exists_builds hd
    exact ⟨hreconciles.methods.trans hbuilds.methods, hreconciles.ctor.trans hbuilds.ctor⟩
  have hrepresented : ∀ d ∈ c.represented.data, d.methods = [] ∧ d.ctor = none := by
    intro d hd
    rw [represented, Model.data_representEnums_eq c.inlinedEnums_dated, c.dates.data_eq] at hd
    obtain ⟨_, hd', rfl⟩ := List.mem_map.mp hd
    obtain ⟨b, hb, rfl⟩ := List.mem_map.mp hd'
    exact hmapped _ _ (hmapped _ _ (hreconciled b hb))
  have hunites := c.unites
  generalize c.united = united at hunites hd
  cases hunites with
  | kept _ => exact hrepresented d hd
  | declared _ _ =>
    obtain ⟨_, hd', rfl⟩ := List.mem_map.mp hd
    obtain ⟨b, hb, rfl⟩ := List.mem_map.mp hd'
    apply hmapped
    split
    · exact hrepresented b hb
    · exact hrepresented b hb

theorem exists_classFrame_revived (h : d ∈ c.revived.data) :
    ∃ source ∈ builder.graph.classes, d.frame = builder.classFrame c.table.symbolOf source := by
  have hframe : d.frame ∈ c.built.frames := c.frames_revived ▸ List.mem_map_of_mem h
  rw [c.builds.frames] at hframe
  obtain ⟨source, hsource, heq⟩ := List.mem_map.mp hframe
  exact ⟨source, hsource, heq.symm⟩

/-- The declarations of classes are none of those that are made for services. -/
theorem not_isNew_of_mem_revived {service : Service} {beans : List DataDeclaration}
    (hbeans : service.AreBeans c.table beans) (hd : d ∈ c.revived.data) :
    Model.isNew (beans.map (·.symbol)) d = false := by
  obtain ⟨source, hsource, hframe⟩ := c.exists_classFrame_revived hd
  have hcategory : d.category = .data := congrArg (·.category) hframe
  have hsymbol : d.symbol = c.table.symbolOf source.name := congrArg (·.symbol) hframe
  have hissued : c.table.find? (.entity source.name "") = some d.symbol := by
    rw [hsymbol]
    exact c.find?_entity (List.mem_append_left _ (List.mem_map_of_mem hsource))
  have hfresh : d.symbol ∉ beans.map (·.symbol) := by
    intro hmem
    obtain ⟨b, hb, heq⟩ := List.mem_map.mp hmem
    obtain ⟨_, -, bean, -, hfound, -⟩ := hbeans.each b hb
    rw [heq] at hfound
    have horigin := SymbolTable.find?_injective hissued hfound
    simp at horigin
  simp [Model.isNew, hcategory, hfresh]

theorem unionAliases_revived : c.revived.unionAliases = c.united.unionAliases := by
  unfold revived Model.revive
  split
  case isFalse => rfl
  case isTrue =>
    simp only [Model.withRevival, Model.unionAliases, Model.data_withHelper, List.filterMap_map]
    apply List.filterMap_congr
    intro d _
    rw [Function.comp]
    split <;> rfl

/-- Services are rewritten by the choices that were made before there were services. -/
theorem lateChoices_eq {service : Service} {extended : Model}
    {declared beans : List DataDeclaration} {aliases : List AliasDeclaration}
    (h : service.Extends c.table c.revived extended declared beans aliases) :
    extended.lateChoices c.table builder.settings = c.choices := by
  have hunions : extended.unionAliases = c.united.unionAliases := by
    have hdeclared : declared.filterMap (fun d => d.unionAlias.map fun s => (d.symbol, s)) =
        [] := by
      rw [List.filterMap_eq_nil_iff]
      intro d hd
      obtain ⟨role, -, -, hrole⟩ := h.exists_role hd
      rw [hrole.unionAlias_eq]
      rfl
    have hbeans : beans.filterMap (fun d => d.unionAlias.map fun s => (d.symbol, s)) = [] := by
      rw [List.filterMap_eq_nil_iff]
      intro d hd
      obtain ⟨_, -, _, -, -, hbean⟩ := h.areBeans.each d hd
      rw [hbean.shape]
      rfl
    rw [← c.unionAliases_revived]
    unfold Model.unionAliases
    rw [h.data_eq, List.filterMap_append, List.filterMap_append, hdeclared, hbeans, List.append_nil,
      List.append_nil]
  have hunion : extended.unionOf? builder.settings = c.united.unionOf? builder.settings := by
    funext s
    rw [Model.unionOf?, hunions]
    rfl
  rw [Model.lateChoices, hunion, h.inlinedEnums_eq, c.inlinedEnums_revived]
  rfl

/-- Where no services are declared, revival is the last step that adds anything. -/
theorem served_eq_revived
    (h : builder.graph.rest = none ∨ builder.settings.restCodegen = .neither) :
    c.served = c.revived := by
  rcases c.served_cases with ⟨-, heq⟩ | ⟨application, hrest, hserves⟩
  · exact heq
  · have hneither := h.resolve_left (by rw [hrest]; exact nofun)
    generalize c.served = served at hserves
    cases hserves with
    | nothing _ => rfl
    | added hmode => exact absurd hneither hmode

/-- The declarations of services are rewritten by the choices, and nothing else changes. Clients get
copy functions then, if they are wanted. -/
theorem data_served {application : Application} (hrest : builder.graph.rest = some application)
    (hmode : builder.settings.restCodegen ≠ .neither) :
    ∃ response extended declared beans aliases represented,
      c.table.find? (.synthetic "RestResponse") = some response ∧
      Service.Extends ⟨application, builder.settings, builder.mapper, response⟩ c.table c.revived
        extended declared beans aliases ∧
      represented.data = c.revived.data ++ (declared ++ beans).map (·.mapTypes c.choices.apply) ∧
      (c.served = represented ∨ c.served = represented.withCopyFunctions response) ∧
      (builder.settings.deserializationFunctions = true →
        builder.settings.restCodegen.client = true →
          c.served = represented.withCopyFunctions response) := by
  have hserves : Model.Served c.table application builder.settings builder.mapper c.revived
      c.served := by
    have hserves := c.serves
    rwa [hrest] at hserves
  generalize c.served = served at hserves
  cases hserves with
  | nothing hneither => exact absurd hneither hmode
  | @added response declared beans aliases extended represented _ _ hresponse hextends hrepresented
      hserved hcopies =>
    refine ⟨response, extended, declared, beans, aliases, represented, hresponse, hextends, ?_,
      hserved.imp_right (·.2), hcopies⟩
    have hold : (c.revived.data.map fun d => if Model.isNew (beans.map (·.symbol)) d then
        d.mapTypes c.choices.apply else d) = c.revived.data := by
      apply map_eq_of_fixed
      intro d hd
      rw [c.not_isNew_of_mem_revived hextends.areBeans hd]
      rfl
    have hnew : ((declared ++ beans).map fun d => if Model.isNew (beans.map (·.symbol)) d then
        d.mapTypes c.choices.apply else d) =
          (declared ++ beans).map (·.mapTypes c.choices.apply) := by
      apply List.map_congr_left
      intro d hd
      have hisNew : Model.isNew (beans.map (·.symbol)) d = true := by
        rcases List.mem_append.mp hd with hd | hd
        · obtain ⟨role, -, -, hrole⟩ := hextends.exists_role hd
          exact Model.isNew_of_category hrole.category_ne
        · exact Model.isNew_of_mem (List.mem_map_of_mem hd)
      rw [if_pos hisNew]
    rw [hrepresented.data_eq, c.lateChoices_eq hextends, hextends.data_eq, List.append_assoc,
      List.map_append, hold, hnew]

end Compilation

end Typings
