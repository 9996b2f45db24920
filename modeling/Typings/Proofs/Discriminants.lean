import Typings.Proofs.Descendants
import Typings.Proofs.Distinct
import Typings.Proofs.Expansion

/-!
# Synthesized discriminants

A class with a discriminant that is not among its properties gets it in front of them. Its type
tells the values apart that the class and the classes below it declare. What is below a class is
read off the supertypes of the source, which may be cyclic or join again, and is reached
transitively. So the values known for a class are among those of the classes above it.

## Main definitions

* `SourceGraph.Collects`: the values that an entity and those below it declare.
* `Builder.Discriminates`: properties with the discriminant of a class.

## Main results

* `Builder.discriminates_withDiscriminant`: when a discriminant is added, and which one.
* `Builder.discriminates_model`: the discriminants of a model.
-/

namespace Typings

open Relation

namespace SourceGraph

variable {graph : SourceGraph} {a b : String} {texts texts' : List String}

/-- The value that the class of an entity declares for its discriminant. -/
def literal? (graph : SourceGraph) (entity : String) : Option String :=
  (graph.findClass? entity).bind (·.discriminantLiteral)

/-- Whether a list has the values that an entity and those below it declare, each once, in the order
in which the walk over them first meets the values. -/
def Collects (graph : SourceGraph) (entity : String) (texts : List String) : Prop :=
  IsDistinct ((graph.selfAndDescendants entity).filterMap graph.literal?) texts

theorem Collects.mem_iff (h : graph.Collects a texts) {text : String} :
    text ∈ texts ↔ ∃ b, ReflTransGen graph.Below a b ∧ graph.literal? b = some text := by
  rw [IsDistinct.mem_iff h, List.mem_filterMap]
  simp only [mem_selfAndDescendants_iff]

/-- The values of what is below an entity are among its own. -/
theorem Collects.subset (h : graph.Collects a texts) (h' : graph.Collects b texts')
    (hbelow : b ∈ graph.selfAndDescendants a) : texts' ⊆ texts := by
  intro text htext
  obtain ⟨e, he, hliteral⟩ := h'.mem_iff.mp htext
  exact h.mem_iff.mpr ⟨e, (mem_selfAndDescendants_iff.mp hbelow).trans he, hliteral⟩

end SourceGraph

/-- Whether a type tells some values apart: any text if none is known, a single one alone, several
as a union in their order. -/
inductive IsDiscriminantType : List String → TypeExpr → Prop
  | unknown : IsDiscriminantType [] .string
  | single (text : String) : IsDiscriminantType [text] (.literal (.text text))
  | several {texts : List String} : 1 < texts.length →
      IsDiscriminantType texts (.union (texts.map fun text => .literal (.text text)))

namespace Builder

variable {builder : Builder} {c : SourceClass}

theorem collects_discriminantLiterals (builder : Builder) (c : SourceClass) :
    builder.graph.Collects c.name (builder.discriminantLiterals c) :=
  isDistinct_eraseDups _

theorem isDiscriminantType_discriminantType (builder : Builder) (c : SourceClass) :
    IsDiscriminantType (builder.discriminantLiterals c) (builder.discriminantType c) := by
  unfold discriminantType
  cases builder.discriminantLiterals c with
  | nil => exact .unknown
  | cons text texts =>
    cases texts with
    | nil => exact .single text
    | cons other texts => exact .several (by simp)

/-- Whether properties are the built ones of a class with its discriminant: in front of them if it
is not among them, and marked as a property of the class itself. -/
structure Discriminates (builder : Builder) (c : SourceClass) (built properties : List Property) :
    Prop where
  plain : c.discriminantProperty = none → properties = built
  present : ∀ name, c.discriminantProperty = some name → (∃ p ∈ built, p.name = name) →
    properties = built
  added : ∀ name, c.discriminantProperty = some name → (∀ p ∈ built, p.name ≠ name) →
    ∃ texts type, builder.graph.Collects c.name texts ∧ IsDiscriminantType texts type ∧
      properties = { name, type, own := true, modifiers := builder.modifiers } :: built

theorem discriminates_withDiscriminant (builder : Builder) (c : SourceClass)
    (built : List Property) : builder.Discriminates c built (builder.withDiscriminant c built) where
  plain hnone := by rw [withDiscriminant, hnone]
  present name hname := by
    rintro ⟨p, hp, hpname⟩
    simp only [withDiscriminant, hname]
    have hpresent : built.any (·.name == name) = true :=
      List.any_eq_true.mpr ⟨p, hp, beq_iff_eq.mpr hpname⟩
    exact if_pos hpresent
  added name hname habsent := by
    refine ⟨_, _, builder.collects_discriminantLiterals c,
      builder.isDiscriminantType_discriminantType c, ?_⟩
    simp only [withDiscriminant, hname]
    have habsent' : ¬built.any (·.name == name) = true := by simpa using habsent
    exact if_neg habsent'

/-! ## Models -/

theorem ExpandsTo.forall₂ {symbolOf : String → Symbol} {classes : List SourceClass}
    {data : List DataDeclaration} {raised : List Warning}
    (h : builder.ExpandsTo symbolOf classes (data.map (·.properties)) raised) :
    List.Forall₂ (fun c d => ∃ xs, builder.graph.IsExpansion c xs ∧
        d.properties =
          builder.withDiscriminant c (xs.filterMap (builder.reachedProperty? symbolOf)))
      classes data := by
  obtain ⟨expansions, hexpansions, hproperties, -⟩ := h
  induction hexpansions generalizing data with
  | nil =>
    obtain rfl := List.map_eq_nil_iff.mp hproperties
    exact .nil
  | @cons c xs classes expansions hxs _ ih =>
    obtain ⟨d, data, rfl, hd, hdata⟩ := List.map_eq_cons_iff.mp hproperties
    exact .cons ⟨xs, hxs, hd⟩ (ih hdata)

/-- In a graph without cyclic pulls, the declaration of a class has the built properties of the
class with its discriminant. The values known for a class are among those of every class that it is
below. -/
theorem discriminates_model (h : builder.graph.pullCycle? = none) (session : Session) :
    (∃ model session', builder.model.run.run session = (.ok model, session') ∧
      List.Forall₂ (fun c d => d.frame = builder.classFrame session'.symbols.symbolOf c ∧
          ∃ xs, builder.graph.IsExpansion c xs ∧
            builder.Discriminates c
              (xs.filterMap (builder.reachedProperty? session'.symbols.symbolOf)) d.properties)
        builder.graph.classes model.data) ∧
      ∀ a b texts texts', b ∈ builder.graph.selfAndDescendants a → builder.graph.Collects a texts →
        builder.graph.Collects b texts' → texts' ⊆ texts := by
  refine ⟨?_, fun a b texts texts' hbelow ha hb => ha.subset hb hbelow⟩
  obtain ⟨model, session', _, hmodel, -, hbuilds, hexpands⟩ := exists_model h session
  refine ⟨model, session', hmodel, hbuilds.data.mp ?_ hexpands.forall₂⟩
  rintro c d hbuilt ⟨xs, hxs, hproperties⟩
  exact ⟨hbuilt.frame, xs, hxs, hproperties ▸ builder.discriminates_withDiscriminant c _⟩

/-- A hierarchy that is cyclic and joins again, with a value that is declared twice. One class has a
property in the place of its discriminant. -/
def outlines : SourceGraph where
  classes :=
    [{ name := "Shape", discriminantProperty := some "kind", parent := some (.named "Ring" []) },
      { name := "Round", kind := .plainInterface, discriminantProperty := some "kind"
        interfaces := [.named "Shape" []], discriminantLiteral := some "round"
        properties := [{ name := "kind", type := .named "String" [] }] },
      { name := "Square", parent := some (.named "Shape" []),
        discriminantLiteral := some "square" },
      { name := "Ring", parent := some (.named "Shape" []), interfaces := [.named "Round" []]
        discriminantProperty := some "kind", discriminantLiteral := some "round" }]

/-- What the model of `outlines` is built with. -/
def outlinesBuilder : Builder := ⟨outlines, {}, .builtIn {} outlines⟩

theorem discriminates_outlines : outlines.pullCycle? = none ∧
    outlines.Collects "Shape" ["round", "square"] ∧
    (∃ model session', outlinesBuilder.model.run.run {} = (.ok model, session') ∧
      List.Forall₂ (fun c d => d.frame = outlinesBuilder.classFrame session'.symbols.symbolOf c ∧
          ∃ xs, outlines.IsExpansion c xs ∧
            outlinesBuilder.Discriminates c
              (xs.filterMap (outlinesBuilder.reachedProperty? session'.symbols.symbolOf))
              d.properties) outlines.classes model.data) ∧
    ∀ texts, outlines.Collects "Ring" texts → texts ⊆ ["round", "square"] := by
  have hnone : outlinesBuilder.graph.pullCycle? = none := by cbv
  have hliterals : outlinesBuilder.discriminantLiterals { name := "Shape" } =
      ["round", "square"] := by
    cbv
  have hshape : outlines.Collects "Shape" ["round", "square"] :=
    hliterals ▸ outlinesBuilder.collects_discriminantLiterals { name := "Shape" }
  have hring : "Ring" ∈ outlines.selfAndDescendants "Shape" :=
    SourceGraph.mem_selfAndDescendants_iff.mpr
      (.single ⟨outlines.classes[3], List.getElem_mem _, rfl, by decide⟩)
  obtain ⟨hmodel, hsubset⟩ := discriminates_model hnone {}
  exact ⟨hnone, hshape, hmodel, fun texts => hsubset "Shape" "Ring" _ texts hring hshape⟩

end Builder

end Typings
