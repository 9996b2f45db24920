import Typings.Proofs.Compile
import Typings.Proofs.Model.Order

/-!
# Scopes of type variables

If the classes of a graph mention their own type parameters only, and its endpoints mention none,
then compiled declarations mention variables that are in scope: type parameters of the declaration,
of the method or of the alias. The exception are properties that were copied. A property that a
class pulls, or takes over from an interface, may mention type parameters of the class that lists
it.

## Main definitions

* `SourceGraph.Scoped`: the variables of a graph are in scope.
* `SourceGraph.CopiesFrom`: properties of a class are copied to a compiled declaration.
* `Compiled.Scoped`: the variables of compiled declarations are in scope, copied properties apart.

## Main results

* `scoped_of_compile`: compiled declarations are scoped if their graph is.
* `not_scoped_pulled`: a pulled property may mention a variable that is not in scope.
-/

namespace Typings

open Relation (ReflTransGen)

/-- Whether classes mention their own type parameters only, and endpoints no variables at all. -/
structure SourceGraph.Scoped (graph : SourceGraph) : Prop where
  classes : ∀ c ∈ graph.classes,
    ∀ source ∈ c.parent.toList ++ c.interfaces ++ c.properties.map (·.type),
      source.vars ⊆ c.typeParameters
  rest : ∀ application ∈ graph.rest, ∀ endpoint ∈ application.methods,
    ∀ source ∈ endpoint.sourceTypes, source.vars = []

/-- Whether properties of a class are copied to a declaration: the class that the declaration is
made of pulls them, or so does a class above one of its interfaces. -/
def SourceGraph.CopiesFrom (graph : SourceGraph) (data : List DataDeclaration) (d : DataDeclaration)
    (owner : SourceClass) : Prop :=
  ∃ a ∈ data, (a = d ∨ d.isClass = true ∧ Reaches data d.interfaces a) ∧
    ∃ c ∈ graph.classes, a.origin = some c.name ∧ ReflTransGen graph.Pulls c owner

/-- Whether the variables of compiled declarations are in scope. A property may mention the type
parameters of a class that it is copied from. -/
structure Compiled.Scoped (out : Compiled) (graph : SourceGraph) : Prop where
  supertypes : ∀ d ∈ out.model.data, ∀ t ∈ d.supertypes, t.vars ⊆ d.typeParameters
  properties : ∀ d ∈ out.model.data, ∀ p ∈ d.properties, ∀ v ∈ p.type.vars,
    v ∈ d.typeParameters ∨
      ∃ owner, graph.CopiesFrom out.model.data d owner ∧ v ∈ owner.typeParameters ∧
        ∃ q ∈ owner.properties, v ∈ q.type.vars
  ctor : ∀ d ∈ out.model.data, ∀ ctor ∈ d.ctor, ∀ p ∈ ctor.parameters,
    p.type.vars ⊆ d.typeParameters
  methods : ∀ d ∈ out.model.data, ∀ m ∈ d.methods,
    ∀ t ∈ m.result :: m.parameters.map (·.type), t.vars ⊆ d.typeParameters ++ m.typeParameters
  aliases : ∀ a ∈ out.model.aliases, a.definition.vars ⊆ a.typeParameters

theorem SourceGraph.mem_classes_of_pulls {graph : SourceGraph} {c owner : SourceClass}
    (hc : c ∈ graph.classes) (h : ReflTransGen graph.Pulls c owner) : owner ∈ graph.classes := by
  induction h with
  | refl => exact hc
  | tail _ hpulls _ =>
    obtain ⟨p, -, -, htarget⟩ := hpulls
    obtain ⟨name, -, hfound⟩ := Option.bind_eq_some_iff.mp htarget
    exact List.mem_of_find?_eq_some hfound

namespace Compilation

variable {builder : Builder} (c : Compilation builder)

/-- What the properties of a declaration may mention: its own type parameters, and those of the
classes whose properties are copied to it. -/
def copyVocabulary (d : DataDeclaration) : Vocabulary where
  var v := v ∈ d.typeParameters ∨
    ∃ owner, builder.graph.CopiesFrom c.built.frames d owner ∧ v ∈ owner.typeParameters ∧
      ∃ q ∈ owner.properties, v ∈ q.type.vars

variable (hgraph : builder.graph.Scoped)

include hgraph

/-- A scope that has at least the type parameters of each declaration. -/
theorem scoping_of_le (scope : DataDeclaration → Vocabulary)
    (hsymbol : ∀ d s n, (scope d).symbol s n) (hprimitive : ∀ d k, (scope d).primitive k)
    (hvar : ∀ d, ∀ v ∈ d.typeParameters, (scope d).var v) :
    Model.Scoping c.table builder.settings builder.mapper builder.graph.rest c.final
      scope scope where
  le _ := .refl _
  mapped d := ⟨fun _ _ n => hsymbol d _ n, hprimitive d⟩
  inlines d := (Vocabulary.dated_le _ _).inlines _
  aliased d _ _ n := hsymbol d _ n
  data d _ _ _ n := hsymbol d _ n
  primitive d k _ := hprimitive d k
  parameter := hvar
  binds d application happlication endpoint hendpoint source hsource v hv := by
    rw [hgraph.rest application happlication endpoint hendpoint source hsource] at hv
    exact absurd hv List.not_mem_nil

theorem membersWithin_own : c.final.MembersWithin fun d => { var := (· ∈ d.typeParameters) } :=
  c.membersWithin
    (c.scoping_of_le hgraph _ (fun _ _ _ => trivial) (fun _ _ => trivial) fun _ _ hv => hv)

omit hgraph in
/-- The properties of a declaration are copied from the classes that its class pulls from, or that a
class above one of its interfaces pulls from. -/
theorem copiesFrom_of_mem_properties {d : DataDeclaration} (hd : d ∈ c.reconciled.data)
    {p : Property} (hp : p ∈ d.properties) :
    (∃ source, p.type = builder.discriminantType source) ∨
      ∃ owner, builder.graph.CopiesFrom c.built.frames d.frame owner ∧
        owner ∈ builder.graph.classes ∧
        ∃ q ∈ owner.properties, p.type = builder.propertyType c.table.symbolOf q := by
  obtain ⟨a, ha, hcopied, source, hsource, hframe, htype⟩ := c.exists_source_of_mem_properties hd hp
  refine htype.imp (fun htype => ⟨source, htype⟩) ?_
  rintro ⟨owner, q, hpulls, hq, htype⟩
  refine ⟨owner, ⟨a.frame, List.mem_map_of_mem ha, ?_, source, hsource, ?_, hpulls⟩,
    SourceGraph.mem_classes_of_pulls hsource hpulls, q, hq, htype⟩
  · refine hcopied.imp_right fun ⟨hclass, hreaches⟩ => ⟨hclass, ?_⟩
    obtain ⟨_, rfl, hreaches⟩ := hreaches.of_related (R := fun d d' => d' = d.frame)
      (by rintro _ _ rfl; rfl) fun d hd => ⟨d.frame, List.mem_map_of_mem hd, rfl⟩
    exact hreaches
  · rw [hframe]
    rfl

theorem propertiesWithin_copied : c.final.PropertiesWithin c.copyVocabulary := by
  have hscoping := c.scoping_of_le hgraph c.copyVocabulary (fun _ _ _ => trivial)
    (fun _ _ => trivial) fun _ _ hv => Or.inl hv
  refine c.propertiesWithin hscoping fun d hd p hp => ?_
  rcases c.copiesFrom_of_mem_properties hd hp with
    ⟨source, htype⟩ | ⟨owner, hcopies, howner, q, hq, htype⟩
  · rw [htype]
    exact Builder.within_discriminantType trivial source
  · rw [htype]
    refine Builder.within_propertyType (hscoping.mapped _) fun v hv => ?_
    have hvars := hgraph.classes owner howner q.type
      (List.mem_append_right _ (List.mem_map_of_mem hq))
    exact .inr ⟨owner, hcopies, hvars hv, q, hq, hv⟩

/-- The variables of supertypes are type parameters. -/
theorem vars_subset_of_mem_supertypes {d : DataDeclaration} (hd : d ∈ c.final.data) {t : TypeExpr}
    (ht : t ∈ d.supertypes) : t.vars ⊆ d.typeParameters := by
  intro v hv
  rcases c.supertype_cases hd ht with
    ⟨source, hsource, hparameters, type, htype, himage⟩ | ⟨e, -, rfl⟩
  · have hvars := hgraph.classes source hsource type (List.mem_append_left _ htype)
    have hwithin : t.Within { var := (· ∈ source.typeParameters) } :=
      Mapper.within_image ⟨fun _ _ _ => trivial, fun _ => trivial⟩ type
        (fun _ hv => hvars hv) himage
    exact hparameters ▸ hwithin.var_of_mem hv
  · have hwithin : (TypeExpr.reference e.symbol (d.typeParameters.map .var)).Within
        { var := (· ∈ d.typeParameters) } := by
      simp
    exact hwithin.var_of_mem hv

omit hgraph in
/-- The variables of an alias are its type parameters. -/
theorem vars_subset_of_mem_aliases {a : AliasDeclaration} (ha : a ∈ c.final.aliases) :
    a.definition.vars ⊆ a.typeParameters := by
  intro v hv
  have hwithin : a.definition.Within { var := (· ∈ a.typeParameters) } :=
    (c.aliasKind_of_mem_final ha).within (fun _ _ => trivial) (fun _ _ => trivial) (fun _ hv => hv)
      fun _ _ => trivial
  exact hwithin.var_of_mem hv

omit hgraph in
/-- What is copied to the frame of a declaration is copied to the declaration in a model with all
frames. -/
theorem copiesFrom_of_frames {data : List DataDeclaration} {d : DataDeclaration}
    {owner : SourceClass} (hdata : ∀ a ∈ c.built.frames, ∃ a' ∈ data, a'.frame = a) (hd : d ∈ data)
    (h : builder.graph.CopiesFrom c.built.frames d.frame owner) :
    builder.graph.CopiesFrom data d owner := by
  obtain ⟨a, -, rfl | ⟨hclass, hreaches⟩, source, hsource, horigin, hpulls⟩ := h
  · exact ⟨d, hd, .inl rfl, source, hsource, horigin, hpulls⟩
  · obtain ⟨a', rfl, habove⟩ := hreaches.of_related (R := fun a a' => a'.frame = a)
      (by rintro _ _ rfl; rfl) hdata
    exact ⟨a', habove.mem, .inr ⟨hclass, habove⟩, source, hsource, horigin, hpulls⟩

end Compilation

/-- The variables of compiled declarations are in scope if those of the graph are, copied properties
apart. -/
theorem scoped_of_compile {graph : SourceGraph} {settings : Settings} {out : Compiled}
    (hgraph : graph.Scoped) (h : compile graph settings = .ok out) : out.Scoped graph := by
  obtain ⟨c, -, hmodel, -⟩ := exists_compilation h
  have hdata : ∀ d ∈ out.model.data, ∃ d' ∈ c.final.data, settings.sortMode.arrange d' = d := by
    intro d hd
    rw [hmodel] at hd
    exact (c.final.mem_data_order out.names settings.sortMode).mp hd
  have hframes : ∀ a ∈ c.built.frames, ∃ a' ∈ out.model.data, a'.frame = a := by
    intro a ha
    rw [← c.frames_united] at ha
    obtain ⟨e, he, rfl⟩ := List.mem_map.mp ha
    obtain ⟨d, hd, hframe⟩ := c.united_precedes_final.exists_frame he
    refine ⟨settings.sortMode.arrange d, ?_, by rw [SortMode.frame_arrange, hframe]⟩
    rw [hmodel]
    exact (c.final.mem_data_order out.names settings.sortMode).mpr ⟨d, hd, rfl⟩
  have hmembers := c.membersWithin_own hgraph
  constructor
  · intro d hd t ht
    obtain ⟨d', hd', rfl⟩ := hdata d hd
    rw [SortMode.supertypes_arrange] at ht
    rw [SortMode.typeParameters_arrange]
    exact c.vars_subset_of_mem_supertypes hgraph hd' ht
  · intro d hd p hp v hv
    obtain ⟨d', hd', rfl⟩ := hdata d hd
    rw [SortMode.mem_properties_arrange] at hp
    rw [SortMode.typeParameters_arrange]
    refine ((c.propertiesWithin_copied hgraph d' hd' p hp).var_of_mem hv).imp_right ?_
    rintro ⟨owner, hcopies, howner⟩
    rw [← settings.sortMode.frame_arrange d'] at hcopies
    exact ⟨owner, c.copiesFrom_of_frames hframes hd hcopies, howner⟩
  · intro d hd ctor hctor p hp v hv
    obtain ⟨d', hd', rfl⟩ := hdata d hd
    rw [SortMode.ctor_arrange] at hctor
    rw [SortMode.typeParameters_arrange]
    exact ((hmembers d' hd').ctor ctor hctor p hp).var_of_mem hv
  · intro d hd m hm t ht v hv
    obtain ⟨d', hd', rfl⟩ := hdata d hd
    rw [SortMode.methods_arrange] at hm
    rw [SortMode.typeParameters_arrange, List.mem_append]
    have hmethod := (hmembers d' hd').methods m hm
    rcases List.mem_cons.mp ht with rfl | ht
    · exact hmethod.result.var_of_mem hv
    · obtain ⟨p, hp, rfl⟩ := List.mem_map.mp ht
      exact (hmethod.parameters p hp).var_of_mem hv
  · intro a ha
    rw [hmodel, (c.final.perm_aliases_order out.names settings.sortMode).mem_iff] at ha
    exact c.vars_subset_of_mem_aliases ha

theorem scoped_gift : giftGraph.Scoped ∧
    ∃ out, compile giftGraph giftSettings = .ok out ∧ out.Scoped giftGraph := by
  have hgraph : giftGraph.Scoped := by
    constructor
    · simp [giftGraph, SourceType.vars, SourceType.varsAll, or_imp, forall_and]
    · simp [giftGraph, Endpoint.sourceTypes]
  obtain ⟨out, hout⟩ := exists_compile_gift
  exact ⟨hgraph, out, hout, scoped_of_compile hgraph hout⟩

/-- A class that pulls the properties of a generic class. -/
def pullGraph : SourceGraph where
  classes :=
    [{ name := "Box", typeParameters := ["T"]
       properties := [{ name := "content", type := .var "T" }] },
     { name := "Gift"
       properties := [{ name := "box", type := .named "Box" [.named "Box" []], pull := some {} }] }]

/-- Settings that know a type of dates only. -/
def pullSettings : Settings where
  knownTypes := giftSettings.knownTypes

/-- The pulled property mentions a variable that is not in scope. -/
theorem not_scoped_pulled : pullGraph.Scoped ∧ ∃ out, compile pullGraph pullSettings = .ok out ∧
    ∃ d ∈ out.model.data, ∃ p ∈ d.properties, ∃ v ∈ p.type.vars, v ∉ d.typeParameters := by
  have hscoped : pullGraph.Scoped := by
    refine ⟨?_, nofun⟩
    simp [pullGraph, SourceType.vars, SourceType.varsAll]
  have hleft : ((compile pullGraph pullSettings).toOption.any fun out => out.model.data.any fun d =>
      d.properties.any fun p => p.type.vars.any fun v => !d.typeParameters.contains v) = true := by
    cbv
  cases hout : compile pullGraph pullSettings with
  | error e =>
    rw [hout] at hleft
    cases hleft
  | ok out =>
    rw [hout] at hleft
    exact ⟨hscoped, out, rfl, by simpa [Except.toOption] using hleft⟩

end Typings
