import Mathlib.Logic.Relation
import Typings.Model.OfGraph
import Typings.Proofs.Mapping.Image
import Typings.Proofs.Model.Frame

/-!
# Built declarations

What the builder makes of the classes and enums of a graph, by the symbols of the final table.

## Main definitions

* `SourceGraph.Pulls`: a class pulls the properties of another one.
* `Builder.supertypeImage?`, `Builder.propertyType`: the types of supertypes and of properties.
* `Builder.classFrame`, `Builder.enumImage`: the frame of a class, and an enum.
* `Builder.Builds`: how a declaration is built of its class.

## Main results

* `Builder.yields_classDeclaration`: the declaration of a class is built of it.
* `Builder.yields_declarations`: the model of a graph.
-/

namespace Typings

/-- Whether a property of the first class pulls from the second one. -/
def SourceGraph.Pulls (graph : SourceGraph) (c c' : SourceClass) : Prop :=
  ∃ p ∈ c.properties, p.pull.isSome ∧ p.type.nullableName?.bind graph.findClass? = some c'

namespace Builder

open Relation (ReflTransGen)

variable (builder : Builder) (symbolOf : String → Symbol)

/-- The type of a supertype, unless it is dropped. -/
def supertypeImage? (source : SourceType) : Option TypeExpr :=
  match builder.mapper.image symbolOf source with
  | .error _ | .ok .any => none
  | .ok type => some type

def propertyType (p : SourceProperty) : TypeExpr :=
  let type := (builder.mapper.image symbolOf p.type).toOption.getD .any
  if p.optional then type.orAbsent else type

def classFrame (c : SourceClass) : DataDeclaration :=
  let parent := c.parent.bind (builder.supertypeImage? symbolOf)
  let interfaces := c.interfaces.filterMap (builder.supertypeImage? symbolOf)
  let implementsParent := builder.isClassLike c && !c.parent.any builder.extendsClass
  { origin := some c.name
    symbol := symbolOf c.name
    isClass := builder.isClassLike c
    typeParameters := c.typeParameters
    parent := if implementsParent then none else parent
    interfaces := if implementsParent then parent.toList ++ interfaces else interfaces
    comments := c.comments
    discriminantProperty := c.discriminantProperty
    discriminantLiteral := c.discriminantLiteral
    unionMembers := c.unionMembers }

/-- The supertypes of a class, in the order of the source. -/
theorem supertypes_classFrame (c : SourceClass) :
    (builder.classFrame symbolOf c).supertypes =
      (c.parent.toList ++ c.interfaces).filterMap (builder.supertypeImage? symbolOf) := by
  have hparent : (c.parent.bind (builder.supertypeImage? symbolOf)).toList =
      c.parent.toList.filterMap (builder.supertypeImage? symbolOf) := by
    cases c.parent with
    | none => rfl
    | some source => cases h : builder.supertypeImage? symbolOf source <;> simp [h]
  rw [List.filterMap_append, ← hparent]
  simp only [DataDeclaration.supertypes, classFrame]
  split <;> simp

def enumImage (e : SourceEnum) : EnumDeclaration :=
  { origin := e.name
    symbol := symbolOf e.name
    kind := enumKind e
    members := e.members.map (enumMember (enumKind e))
    comments := e.comments }

/-- Whether a type is that of a property which a class lists or pulls. -/
def PropertyTypeOf (c : SourceClass) (type : TypeExpr) : Prop :=
  ∃ owner p, ReflTransGen builder.graph.Pulls c owner ∧ p ∈ owner.properties ∧
    type = builder.propertyType symbolOf p

/-- Whether a declaration is built of a class. -/
structure Builds (c : SourceClass) (d : DataDeclaration) : Prop where
  frame : d.frame = builder.classFrame symbolOf c
  properties : ∀ p ∈ d.properties,
    p.type = builder.discriminantType c ∨ builder.PropertyTypeOf symbolOf c p.type
  plain : ∀ p ∈ c.properties, p.pull = none →
    ∃ q ∈ d.properties, q.name = p.name ∧ q.type = builder.propertyType symbolOf p
  methods : d.methods = []
  ctor : d.ctor = none
  unionAlias : d.unionAlias = none

end Builder

namespace Builder

open Work
open Relation (ReflTransGen)

variable {builder : Builder} {lo hi : SymbolTable}

theorem yields_supertype? (source : SourceType) :
    Yields lo hi (builder.supertype? source) (· = builder.supertypeImage? hi.symbolOf source) := by
  refine .bind (Mapper.yields_map source) fun mapped => ?_
  split
  · refine .bind (yields_report _ _ _) fun _ => .pure fun _ h => ?_
    rw [supertypeImage?, ← h]
  · refine .bind (yields_report _ _ _) fun _ => .pure fun _ h => ?_
    rw [supertypeImage?, ← h]
  case h_3 type hany =>
    refine .pure fun h => ?_
    rw [supertypeImage?, ← h]
    cases type with
    | any => exact absurd rfl hany
    | _ => rfl

theorem yields_parentType? (c : SourceClass) :
    Yields lo hi (builder.parentType? c)
      (· = c.parent.bind (builder.supertypeImage? hi.symbolOf)) := by
  unfold parentType?
  split
  case h_1 source hparent =>
    rw [hparent]
    exact yields_supertype? source
  case h_2 hparent =>
    rw [hparent]
    exact .pure rfl

theorem yields_supertypes (sources : List SourceType) :
    Yields lo hi (builder.supertypes sources)
      (· = sources.filterMap (builder.supertypeImage? hi.symbolOf)) := by
  induction sources with
  | nil => exact .pure rfl
  | cons source rest ih =>
    refine .bind (yields_supertype? source) fun first => .bind ih fun others => .pure ?_
    rintro rfl rfl
    cases h : builder.supertypeImage? hi.symbolOf source <;> simp [h]

theorem yields_plainProperty (owner : SourceClass) (before after : String) (p : SourceProperty) :
    Yields lo hi (builder.plainProperty owner before after p) fun property =>
      property.name = before ++ p.name ++ after ∧
        property.type = builder.propertyType hi.symbolOf p := by
  refine .bind (Mapper.yields_map p.type) fun mapped => ?_
  cases mapped with
  | error unresolved =>
    refine .bind (yields_warn _) fun _ => .pure fun _ h => ⟨rfl, ?_⟩
    simp only [propertyType, ← h]
    rfl
  | ok type =>
    refine .pure fun h => ⟨rfl, ?_⟩
    simp only [propertyType, ← h]
    rfl

/-- The properties of a class are those that it lists and pulls. -/
theorem yields_expand (path : List String) (owner : SourceClass) (before after : String)
    (properties : List SourceProperty) :
    Yields lo hi (builder.expand path owner before after properties) fun expanded =>
      properties ⊆ owner.properties →
        ∀ p ∈ expanded, builder.PropertyTypeOf hi.symbolOf owner p.type := by
  induction path, owner, before, after, properties using Builder.expand.induct builder with
  | case1 path owner before after =>
    rw [expand]
    exact .pure fun _ p hp => absurd hp List.not_mem_nil
  | case2 path owner before after p rest ihpull ihrest =>
    rw [expand]
    refine .bind (P := fun expanded => p ∈ owner.properties →
      ∀ q ∈ expanded, builder.PropertyTypeOf hi.symbolOf owner q.type) ?_ fun first =>
        .bind ihrest fun others => .pure fun hothers hfirst hsub q hq => ?_
    · split
      · refine .map
          ((yields_plainProperty owner before after p).mono fun property hplain hp q hq => ?_)
        rw [List.mem_singleton.mp hq]
        exact ⟨owner, p, .refl, hp, hplain.2⟩
      case h_2 pull hpull =>
        split
        · exact .bind (yields_warn _) fun _ => .pure fun _ _ q hq => absurd hq List.not_mem_nil
        case h_2 target hfound =>
          split
          · exact .pure fun _ q hq => absurd hq List.not_mem_nil
          case isFalse hnew =>
            refine (ihpull pull target hfound hnew).mono fun expanded hexpanded hp q hq => ?_
            obtain ⟨owner', p', hpulls, hp', htype⟩ := hexpanded (List.Subset.refl _) q hq
            exact ⟨owner', p', .head ⟨p, hp, by rw [hpull]; rfl, hfound⟩ hpulls, hp', htype⟩
    · obtain ⟨hp, hrest⟩ := List.cons_subset.mp hsub
      rcases List.mem_append.mp hq with hq | hq
      · exact hfirst hp q hq
      · exact hothers hrest q hq

/-- A property that does not pull is among the expanded ones. -/
theorem yields_expand_plain (path : List String) (owner : SourceClass) (before after : String)
    (properties : List SourceProperty) :
    Yields lo hi (builder.expand path owner before after properties) fun expanded =>
      ∀ p ∈ properties, p.pull = none → ∃ q ∈ expanded,
        q.name = before ++ p.name ++ after ∧ q.type = builder.propertyType hi.symbolOf p := by
  induction properties with
  | nil =>
    rw [expand]
    exact .pure fun p hp => absurd hp List.not_mem_nil
  | cons p rest ih =>
    rw [expand]
    refine .bind (P := fun expanded => p.pull = none → ∃ q ∈ expanded,
      q.name = before ++ p.name ++ after ∧
        q.type = builder.propertyType hi.symbolOf p) ?_ fun first =>
        .bind ih fun others => .pure fun hothers hfirst q hq hpull => ?_
    · cases hpull : p.pull with
      | none =>
        refine .map ((yields_plainProperty owner before after p).mono fun property hplain _ => ?_)
        exact ⟨property, List.mem_singleton_self _, hplain⟩
      | some pull =>
        have hpulls : some pull ≠ none := Option.some_ne_none pull
        dsimp only
        split
        · exact .bind (yields_warn _) fun _ => .pure fun _ hnone => absurd hnone hpulls
        · split
          · exact .pure fun hnone => absurd hnone hpulls
          · exact (yields_expand _ _ _ _ _).mono fun _ _ hnone => absurd hnone hpulls
    · rcases List.mem_cons.mp hq with rfl | hq
      · obtain ⟨property, hproperty, hplain⟩ := hfirst hpull
        exact ⟨property, List.mem_append_left _ hproperty, hplain⟩
      · obtain ⟨property, hproperty, hplain⟩ := hothers q hq hpull
        exact ⟨property, List.mem_append_right _ hproperty, hplain⟩

theorem subset_withDiscriminant (c : SourceClass) (properties : List Property) :
    properties ⊆ builder.withDiscriminant c properties := by
  unfold withDiscriminant
  split
  · exact List.Subset.refl _
  · split
    · exact List.Subset.refl _
    · exact List.subset_cons_self _ _

theorem mem_withDiscriminant {c : SourceClass} {properties : List Property} {p : Property}
    (h : p ∈ builder.withDiscriminant c properties) :
    p.type = builder.discriminantType c ∨ p ∈ properties := by
  unfold withDiscriminant at h
  split at h
  · exact .inr h
  · split at h
    · exact .inr h
    · rcases List.mem_cons.mp h with rfl | h
      · exact .inl rfl
      · exact .inr h

/-- The declaration of a class is built of it. -/
theorem yields_classDeclaration (c : SourceClass) :
    Yields lo hi (builder.classDeclaration c) fun d =>
      builder.Builds hi.symbolOf c d ∧
        hi.find? (.entity c.name "") = some (hi.symbolOf c.name) := by
  refine .bind (yields_entitySymbol c.name "") fun symbol =>
    .bind (yields_parentType? c) fun parent =>
      .bind (yields_supertypes c.interfaces) fun interfaces =>
        .bind ((yields_expand [c.name] c "" "" c.properties).and
          (yields_expand_plain [c.name] c "" "" c.properties)) fun properties => .pure ?_
  rintro ⟨hproperties, hplain⟩ rfl rfl hsymbol
  refine ⟨⟨?_, fun p hp => ?_, fun p hp hpull => ?_, rfl, rfl, rfl⟩,
    by rwa [SymbolTable.symbolOf_eq hsymbol]⟩
  · simp only [DataDeclaration.frame, classFrame, SymbolTable.symbolOf_eq hsymbol]
  · exact (mem_withDiscriminant hp).imp_right (hproperties (List.Subset.refl _) p)
  · obtain ⟨q, hq, hname, htype⟩ := hplain p hp hpull
    refine ⟨q, subset_withDiscriminant c properties hq, ?_, htype⟩
    rw [hname, String.empty_append, String.append_empty]

theorem yields_enumDeclaration (e : SourceEnum) :
    Yields lo hi (enumDeclaration e) fun d =>
      d = enumImage hi.symbolOf e ∧
        hi.find? (.entity e.name "") = some (hi.symbolOf e.name) := by
  refine .bind (yields_entitySymbol e.name "") fun symbol => .pure fun h => ?_
  rw [enumImage, SymbolTable.symbolOf_eq h]
  exact ⟨rfl, h⟩

/-- Whether a model has a declaration for every class and every enum of the graph, and nothing
else. -/
structure BuildsModel (builder : Builder) (symbolOf : String → Symbol) (model : Model) : Prop where
  data : List.Forall₂ (builder.Builds symbolOf) builder.graph.classes model.data
  enums : model.enums = builder.graph.enums.map (enumImage symbolOf)
  aliases : model.aliases = []
  helpers : model.helpers = []
  inlinedEnums : model.inlinedEnums = []

/-- Building yields the model of the graph, and all declared names have symbols. -/
theorem yields_declarations :
    Yields lo hi builder.declarations fun model =>
      builder.BuildsModel hi.symbolOf model ∧
        ∀ name ∈ builder.graph.declaredNames,
          hi.find? (.entity name "") = some (hi.symbolOf name) := by
  refine .bind (.mapM fun c _ => yields_classDeclaration c) fun data =>
    .bind (.mapM fun e _ => yields_enumDeclaration e) fun enums =>
      .bind (yields_report _ _ _) fun _ => .pure fun _ henums hdata => ?_
  refine ⟨⟨hdata.imp fun _ _ h => h.1, ?_, rfl, rfl, rfl⟩, fun name hname => ?_⟩
  · have heq := map_eq_map_of_forall₂ (f := enumImage hi.symbolOf) (g := id) henums
      fun _ _ h => h.1.symm
    rw [heq, List.map_id]
  · rcases List.mem_append.mp hname with hname | hname
    · obtain ⟨c, hc, rfl⟩ := List.mem_map.mp hname
      obtain ⟨d, -, -, hissued⟩ := exists_mem_of_forall₂ hdata.flip hc
      exact hissued
    · obtain ⟨e, he, rfl⟩ := List.mem_map.mp hname
      obtain ⟨d, -, -, hissued⟩ := exists_mem_of_forall₂ henums.flip he
      exact hissued

theorem BuildsModel.frames {symbolOf : String → Symbol} {model : Model}
    (h : builder.BuildsModel symbolOf model) :
    model.frames = builder.graph.classes.map (builder.classFrame symbolOf) :=
  (map_eq_map_of_forall₂ h.data fun _ _ hd => hd.frame.symm).symm

/-! ## What occurs in built declarations -/

section Within

variable {symbolOf : String → Symbol} {voc : Vocabulary}

theorem within_propertyType (hvoc : builder.mapper.Covered symbolOf voc) {p : SourceProperty}
    (hvars : ∀ v ∈ p.type.vars, voc.var v) : (builder.propertyType symbolOf p).Within voc := by
  have himage : ((builder.mapper.image symbolOf p.type).toOption.getD .any).Within voc := by
    cases h : builder.mapper.image symbolOf p.type with
    | error e => exact TypeExpr.within_any
    | ok type => exact Mapper.within_image hvoc p.type hvars h
  unfold propertyType
  dsimp only
  split
  · exact TypeExpr.within_orAbsent.mpr himage
  · exact himage

theorem within_discriminantType (hstring : voc.primitive .string) (c : SourceClass) :
    (builder.discriminantType c).Within voc := by
  unfold discriminantType
  split
  · exact TypeExpr.within_primitive.mpr hstring
  · exact .literalUnion _

/-- The supertypes of a class are images of its source types. -/
theorem exists_image_of_mem_supertypes {c : SourceClass} {t : TypeExpr}
    (h : t ∈ (builder.classFrame symbolOf c).supertypes) :
    ∃ source ∈ c.parent.toList ++ c.interfaces, builder.mapper.image symbolOf source = .ok t := by
  rw [supertypes_classFrame] at h
  obtain ⟨source, hsource, himage⟩ := List.mem_filterMap.mp h
  refine ⟨source, hsource, ?_⟩
  unfold supertypeImage? at himage
  split at himage
  · exact nomatch himage
  · exact nomatch himage
  case h_3 type _ hok =>
    obtain rfl := Option.some.inj himage
    exact hok

end Within

end Builder

end Typings
