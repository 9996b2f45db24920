import Typings.Proofs.Model.Build
import Typings.Proofs.Renaming.Declaration
import Typings.Proofs.Simulation.Basic

/-!
# Declarations built in two runs

Two graphs that list the same classes and enums in a different order are mapped and built alike:
what the second run builds of a class is what the first run builds of it, with the symbols renamed.

## Main definitions

* `Mapper.Alike`, `Builder.Alike`: mappers and builders that treat everything alike.
* `SourceClass.ListsDiscriminant`: a class lists its discriminant itself.

## Main results

* `Mapper.sim_map`: source types are mapped alike.
* `Builder.sim_classDeclaration`, `Builder.sim_enumDeclaration`: classes and enums are built alike.
-/

namespace Typings

open Work

theorem Except.map_surjective {ε α β : Type} {g : α → β} (hg : g.Surjective) :
    Function.Surjective (Except.map g : Except ε α → Except ε β) := by
  rintro (e | b)
  · exact ⟨.error e, rfl⟩
  · obtain ⟨a, rfl⟩ := hg b
    exact ⟨.ok a, rfl⟩

theorem Option.map_surjective {α β : Type} {g : α → β} (hg : g.Surjective) :
    Function.Surjective (Option.map g) := by
  rintro (_ | b)
  · exact ⟨none, rfl⟩
  · obtain ⟨a, rfl⟩ := hg b
    exact ⟨some a, rfl⟩

theorem Property.rename_surjective {f : Symbol → Symbol} (hf : f.Surjective) :
    (Property.rename f).Surjective := by
  intro p
  obtain ⟨t, ht⟩ := TypeExpr.rename_surjective hf p.type
  exact ⟨{ p with type := t }, by rw [Property.rename, ht]⟩

namespace Correspondence

variable (c : Correspondence)

theorem type_surjective : (TypeExpr.rename c.symbols).Surjective :=
  TypeExpr.rename_surjective c.symbols.surjective

theorem types_surjective : (List.map (TypeExpr.rename c.symbols)).Surjective :=
  List.map_surjective_iff.mpr c.type_surjective

theorem properties_surjective : (List.map (Property.rename c.symbols)).Surjective :=
  List.map_surjective_iff.mpr (Property.rename_surjective c.symbols.surjective)

end Correspondence

/-! ## Mapping -/

/-- Whether a plan builds types alike before and after renaming. -/
def Plan.Respects (f : Symbol → Symbol) : Plan → Prop
  | .fixed type => type.rename f = type
  | .argument _ build => ∀ t : TypeExpr, (build t).rename f = build (t.rename f)
  | .reference => True

namespace Mapper

/-- Mappers that plan the same for every name. -/
structure Alike (mapper mapper' : Mapper) : Prop where
  chain : mapper'.chain = mapper.chain
  firstPlan? (name : String) : mapper'.firstPlan? name = mapper.firstPlan? name

/-- The order in which names are declared makes no difference. -/
theorem Alike.of_perm {chain : List Resolver} {settings : Settings} {graph graph' : SourceGraph}
    (h : graph.declaredNames.Perm graph'.declaredNames) :
    Alike (.ofChain chain settings graph) (.ofChain chain settings graph') where
  chain := rfl
  firstPlan? name := by
    have hcontains : graph'.declaredNames.contains name = graph.declaredNames.contains name := by
      rw [Bool.eq_iff_iff, List.contains_iff_mem, List.contains_iff_mem, h.mem_iff]
    have hplan : ∀ resolver, (ofChain chain settings graph').plan? name resolver =
        (ofChain chain settings graph).plan? name resolver := by
      intro resolver
      cases resolver with
      | declared => exact if_congr (Bool.eq_iff_iff.mp hcontains) rfl rfl
      | _ => rfl
    simp only [Mapper.firstPlan?, hplan]
    rfl

theorem Planned.respects {mapper : Mapper} {name : String} {plan : Plan}
    (h : Planned mapper name plan) (f : Symbol → Symbol) : plan.Respects f := by
  cases h with
  | custom text => exact TypeExpr.rename_verbatim text
  | primitive kind => exact TypeExpr.rename_primitive kind
  | any => exact TypeExpr.rename_any
  | optional => exact TypeExpr.rename_orAbsent
  | wrapper => exact fun _ => rfl
  | sequence => exact TypeExpr.rename_array
  | map => exact TypeExpr.rename_stringMap
  | declared => exact trivial

variable {c : Correspondence} {mapper mapper' : Mapper}

theorem map_map_eq {ε : Type} {f : Symbol → Symbol} {α : Type} {g : α → α} {build : α → TypeExpr}
    (h : ∀ a, (build a).rename f = build (g a)) (result : Except ε α) :
    (result.map build).map (TypeExpr.rename f) = (result.map g).map build := by
  cases result with
  | error e => rfl
  | ok a => exact congrArg Except.ok (h a)

theorem sim_unresolved (source : SourceType) :
    Sim c (Except.map (TypeExpr.rename c.symbols) · = ·) (unresolved source) (unresolved source) :=
  .after_quiet (quiet_report _ _ _) (quiet_report _ _ _) (.pure rfl)

theorem sim_reported {α α' : Type} {R : α → α' → Prop} (resolver : Resolver) (source : SourceType)
    {result : α} {result' : α'} (h : R result result') :
    Sim c R (do reportResolved resolver source; pure result)
      (do reportResolved resolver source; pure result') :=
  .after_quiet (quiet_report _ _ _) (quiet_report _ _ _) (.pure h)

theorem sim_refer (name : String) (args : Except Unresolved (List TypeExpr)) :
    Sim c (Except.map (TypeExpr.rename c.symbols) · = ·) (refer name args)
      (refer name (args.map (List.map (TypeExpr.rename c.symbols)))) := by
  cases args with
  | error e => exact .pure rfl
  | ok args =>
    refine .bind_pure (sim_symbol (.entity name "")) fun s s' hs => ?_
    rw [← hs]
    exact congrArg Except.ok (TypeExpr.rename_reference s args)

mutual

/-- A source type is mapped to the same type in both runs, with the symbols renamed. -/
theorem sim_map (h : mapper.Alike mapper') (source : SourceType) :
    Sim c (Except.map (TypeExpr.rename c.symbols) · = ·) (mapper.map source)
      (mapper'.map source) := by
  have htype := Except.map_surjective (ε := Unresolved) c.type_surjective
  cases source with
  | named name args =>
    rw [map, map, h.firstPlan?]
    cases hplan : mapper.firstPlan? name with
    | none => exact sim_unresolved _
    | some found =>
      obtain ⟨resolver, plan⟩ := found
      have hrespects := (planned_of_firstPlan? hplan).respects c.symbols
      cases plan with
      | fixed type => exact sim_reported _ _ (congrArg Except.ok hrespects)
      | argument position build =>
        exact .bind htype (sim_mapNth h args position) fun mapped =>
          sim_reported _ _ (map_map_eq hrespects mapped)
      | reference =>
        refine .bind ?_ (sim_mapAll h args) fun mapped =>
          .bind htype (sim_refer name mapped) fun result => sim_reported _ _ rfl
        exact Except.map_surjective c.types_surjective
  | nullable inner =>
    rw [map, map, h.chain]
    split
    · exact .bind htype (sim_map h inner) fun mapped =>
        sim_reported _ _ (map_map_eq TypeExpr.rename_orAbsent mapped)
    · exact sim_unresolved _
  | array element =>
    rw [map, map, h.chain]
    split
    · exact .bind htype (sim_map h element) fun mapped =>
        sim_reported _ _ (map_map_eq TypeExpr.rename_array mapped)
    · exact sim_unresolved _
  | var name =>
    rw [map, map, h.chain]
    split
    · exact sim_reported _ _ (congrArg Except.ok (TypeExpr.rename_var name))
    · exact sim_unresolved _
  | union types =>
    rw [map, map, h.chain]
    split
    · refine .bind ?_ (sim_mapAll h types) fun mapped =>
        sim_reported _ _ (map_map_eq TypeExpr.rename_union mapped)
      exact Except.map_surjective c.types_surjective
    · exact sim_unresolved _

theorem sim_mapNth (h : mapper.Alike mapper') (sources : List SourceType) (position : Nat) :
    Sim c (Except.map (TypeExpr.rename c.symbols) · = ·) (mapper.mapNth sources position)
      (mapper'.mapNth sources position) := by
  cases sources with
  | nil =>
    rw [mapNth, mapNth]
    exact .pure (congrArg Except.ok TypeExpr.rename_any)
  | cons source rest =>
    cases position with
    | zero => simpa only [mapNth] using sim_map h source
    | succ position => simpa only [mapNth] using sim_mapNth h rest position

theorem sim_mapAll (h : mapper.Alike mapper') (sources : List SourceType) :
    Sim c (Except.map (List.map (TypeExpr.rename c.symbols)) · = ·) (mapper.mapAll sources)
      (mapper'.mapAll sources) := by
  cases sources with
  | nil =>
    rw [mapAll, mapAll]
    exact .pure rfl
  | cons source rest =>
    rw [mapAll, mapAll]
    refine .bind (Except.map_surjective c.type_surjective) (sim_map h source) fun first => ?_
    cases first with
    | error e => exact .pure rfl
    | ok type =>
      refine .bind (Except.map_surjective c.types_surjective) (sim_mapAll h rest)
        fun others => ?_
      cases others with
      | error e => exact .pure rfl
      | ok types => exact .pure rfl

end

end Mapper

/-! ## Building -/

/-- A class lists its discriminant itself, as a property that does not pull. -/
def SourceClass.ListsDiscriminant (c : SourceClass) : Prop :=
  ∀ name, c.discriminantProperty = some name → ∃ p ∈ c.properties, p.name = name ∧ p.pull = none

namespace Builder

/-- Builders with the same settings that map types and find classes alike. -/
structure Alike (builder builder' : Builder) : Prop where
  settings : builder'.settings = builder.settings
  mapper : builder.mapper.Alike builder'.mapper
  findClass? : builder'.graph.findClass? = builder.graph.findClass?

variable {builder builder' : Builder} {lo hi : SymbolTable}

/-- The properties of a class are kept as they are if its discriminant is among them. -/
theorem withDiscriminant_eq {source : SourceClass} {properties : List Property}
    (h : ∀ name, source.discriminantProperty = some name → ∃ q ∈ properties, q.name = name) :
    builder.withDiscriminant source properties = properties := by
  unfold withDiscriminant
  split
  · rfl
  case h_2 name hname =>
    obtain ⟨q, hq, hqname⟩ := h name hname
    have hany : properties.any (·.name == name) = true :=
      List.any_eq_true.mpr ⟨q, hq, beq_iff_eq.mpr hqname⟩
    rw [if_pos hany]

section Sim

variable {c : Correspondence} (h : builder.Alike builder')

include h

theorem Alike.isClassLike (source : SourceClass) :
    builder'.isClassLike source = builder.isClassLike source := by
  rw [Builder.isClassLike, Builder.isClassLike, h.settings]

theorem Alike.extendsClass (source : SourceType) :
    builder'.extendsClass source = builder.extendsClass source := by
  rw [Builder.extendsClass, Builder.extendsClass, h.findClass?]
  exact congrArg (fun isClass => Option.any isClass _) (funext h.isClassLike)

theorem Alike.pulledClass? (p : SourceProperty) :
    builder'.pulledClass? p = builder.pulledClass? p := by
  rw [Builder.pulledClass?, Builder.pulledClass?, h.findClass?]

theorem sim_supertype? (source : SourceType) :
    Sim c (Option.map (TypeExpr.rename c.symbols) · = ·) (builder.supertype? source)
      (builder'.supertype? source) := by
  refine .bind (Except.map_surjective c.type_surjective)
    (Mapper.sim_map h.mapper source) fun mapped => ?_
  rcases mapped with e | type
  · exact .after_quiet (quiet_report _ _ _) (quiet_report _ _ _) (.pure rfl)
  · cases type with
    | any => exact .after_quiet (quiet_report _ _ _) (quiet_report _ _ _) (.pure rfl)
    | _ => exact .pure rfl

theorem sim_parentType? (source : SourceClass) :
    Sim c (Option.map (TypeExpr.rename c.symbols) · = ·) (builder.parentType? source)
      (builder'.parentType? source) := by
  unfold parentType?
  cases source.parent with
  | none => exact .pure rfl
  | some parent => exact sim_supertype? h parent

theorem sim_supertypes (sources : List SourceType) :
    Sim c (List.map (TypeExpr.rename c.symbols) · = ·) (builder.supertypes sources)
      (builder'.supertypes sources) := by
  induction sources with
  | nil => exact .pure rfl
  | cons source rest ih =>
    refine .bind (Option.map_surjective c.type_surjective) (sim_supertype? h source) fun first =>
      .bind_pure ih ?_
    rintro others _ rfl
    cases first <;> simp

theorem sim_plainProperty (owner : SourceClass) (before after : String) (p : SourceProperty) :
    Sim c (Property.rename c.symbols · = ·) (builder.plainProperty owner before after p)
      (builder'.plainProperty owner before after p) := by
  have hmodifiers : builder'.modifiers = builder.modifiers := by
    rw [modifiers, modifiers, h.settings]
  have htype : ∀ t : TypeExpr, (if p.optional then t.orAbsent else t).rename c.symbols =
      if p.optional then (t.rename c.symbols).orAbsent else t.rename c.symbols := by
    intro t
    split <;> simp
  refine .bind (Except.map_surjective c.type_surjective)
    (Mapper.sim_map h.mapper p.type) fun mapped => ?_
  rcases mapped with e | type
  · refine .after_quiet (quiet_warn _) (quiet_warn _) (.pure ?_)
    rw [Property.rename, htype, hmodifiers, TypeExpr.rename_any]
  · refine .pure ?_
    rw [Property.rename, htype, hmodifiers]

theorem sim_expand (path : List String) (owner : SourceClass) (before after : String)
    (properties : List SourceProperty) :
    Sim c (List.map (Property.rename c.symbols) · = ·)
      (builder.expand path owner before after properties)
      (builder'.expand path owner before after properties) := by
  induction path, owner, before, after, properties using Builder.expand.induct builder with
  | case1 path owner before after =>
    rw [expand, expand]
    exact .pure rfl
  | case2 path owner before after p rest ihpull ihrest =>
    rw [expand, expand]
    refine .bind c.properties_surjective ?_ fun first => .bind_pure ihrest ?_
    · cases p.pull with
      | none =>
        refine .bind_pure (sim_plainProperty h owner before after p) ?_
        rintro property _ rfl
        rfl
      | some pull =>
        dsimp only
        have hpulled := h.pulledClass? p
        split
        case h_1 hnone =>
          rw [hnone] at hpulled
          split
          case h_1 => exact .after_quiet (quiet_warn _) (quiet_warn _) (.pure rfl)
          case h_2 hsome => cases hsome.symm.trans hpulled
        case h_2 target hfound =>
          rw [hfound] at hpulled
          split
          case isTrue hagain =>
            split
            case h_1 hnone => cases hnone.symm.trans hpulled
            case h_2 target' hfound' =>
              obtain rfl := Option.some.inj (hfound'.symm.trans hpulled)
              rw [dif_pos hagain]
              exact .pure rfl
          case isFalse hnew =>
            split
            case h_1 hnone => cases hnone.symm.trans hpulled
            case h_2 target' hfound' =>
              obtain rfl := Option.some.inj (hfound'.symm.trans hpulled)
              rw [dif_neg hnew]
              exact ihpull pull target' hfound hnew
    · rintro others _ rfl
      exact List.map_append

/-- The declaration of a class is the same in both runs, with the symbols renamed. -/
theorem sim_classDeclaration {source : SourceClass} (hlists : source.ListsDiscriminant) :
    Sim c (DataDeclaration.rename c.symbols · = ·) (builder.classDeclaration source)
      (builder'.classDeclaration source) := by
  have hnames := @yields_expand_plain builder c.lo c.hi [source.name] source "" "" source.properties
  have hproperties := (sim_expand h [source.name] source "" "" source.properties).and_yields hnames
  refine .bind c.symbols.surjective (sim_symbol (.entity source.name "")) fun symbol =>
    .bind (Option.map_surjective c.type_surjective) (sim_parentType? h source) fun parent =>
      .bind c.types_surjective (sim_supertypes h source.interfaces)
        fun interfaces => .bind_pure hproperties ?_
  rintro properties _ ⟨rfl, hlisted⟩
  have hkept : ∀ name, source.discriminantProperty = some name →
      ∃ q ∈ properties, q.name = name := by
    intro name hname
    obtain ⟨p, hp, hpname, hpull⟩ := hlists name hname
    obtain ⟨q, hq, hqname, -⟩ := hlisted p hp hpull
    exact ⟨q, hq, by rw [hqname, hpname, String.empty_append, String.append_empty]⟩
  have hkept' : ∀ name, source.discriminantProperty = some name →
      ∃ q ∈ properties.map (Property.rename c.symbols), q.name = name := by
    intro name hname
    obtain ⟨q, hq, hqname⟩ := hkept name hname
    exact ⟨_, List.mem_map_of_mem hq, hqname⟩
  have hextends : source.parent.any builder'.extendsClass =
      source.parent.any builder.extendsClass :=
    congrArg (fun isClass => Option.any isClass _) (funext h.extendsClass)
  rw [withDiscriminant_eq hkept, withDiscriminant_eq hkept', hextends, h.isClassLike]
  simp only [DataDeclaration.rename, List.map_nil, Option.map_none]
  split
  · cases parent <;> simp
  · rfl

end Sim

theorem sim_enumDeclaration {c : Correspondence} (e : SourceEnum) :
    Sim c (EnumDeclaration.rename c.symbols · = ·) (enumDeclaration e) (enumDeclaration e) := by
  refine .bind_pure (sim_symbol (.entity e.name "")) ?_
  rintro symbol _ rfl
  rfl

end Builder

end Typings
