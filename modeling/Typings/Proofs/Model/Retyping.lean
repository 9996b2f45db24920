import Mathlib.Data.Option.Basic
import Typings.Proofs.Model.Within
import Typings.Proofs.Session

/-!
# Retyped declarations

A step that changes types touches no other part of the members of a declaration. The relation below
says so part by part, whatever a step makes of a type.

## Main definitions

* `DataDeclaration.Retyped`: a declaration is another one up to its types, which are related one by
  one.

## Main results

* `DataDeclaration.Retyped.mapTypes`: changing the types of a declaration retypes it.
* `DataDeclaration.Retyped.exists_of_mem_types`: every type of a retyped declaration has an old one.
-/

namespace Typings

variable {R : TypeExpr → TypeExpr → Prop} {f : TypeExpr → TypeExpr}

/-- Whether the second method is the first one with related types of parameters and result. -/
structure Method.Retyped (R : TypeExpr → TypeExpr → Prop) (m m' : Method) : Prop where
  parameters : List.Forall₂ (fun p p' => ∃ t, R p.type t ∧ p' = { p with type := t })
    m.parameters m'.parameters
  result : R m.result m'.result
  rest : m' = { m with parameters := m'.parameters, result := m'.result }

/-- Whether the second constructor is the first one with related types of parameters. -/
structure Constructor.Retyped (R : TypeExpr → TypeExpr → Prop) (c c' : Constructor) : Prop where
  parameters : List.Forall₂ (fun p p' => ∃ t, R p.type t ∧ p' = { p with type := t })
    c.parameters c'.parameters
  rest : c' = { c with parameters := c'.parameters }

namespace DataDeclaration

variable {d d' : DataDeclaration}

/-- Whether the second declaration is the first one with related types of properties, methods and
the constructor. Which alias of a union it has is left open. -/
structure Retyped (R : TypeExpr → TypeExpr → Prop) (d d' : DataDeclaration) : Prop where
  frame : d'.frame = d.frame
  properties : List.Forall₂ (fun p p' => ∃ t, R p.type t ∧ p' = { p with type := t })
    d.properties d'.properties
  methods : List.Forall₂ (Method.Retyped R) d.methods d'.methods
  ctor : Option.Rel (Constructor.Retyped R) d.ctor d'.ctor

theorem Retyped.mapTypes (h : ∀ t ∈ d.types, R t (f t)) : Retyped R d (d.mapTypes f) where
  frame := rfl
  properties := List.forall₂_map_right_iff.mpr (List.forall₂_same.mpr fun p hp =>
    ⟨_, h _ (mem_types.mpr (Or.inl ⟨p, hp, rfl⟩)), rfl⟩)
  methods := by
    refine List.forall₂_map_right_iff.mpr (List.forall₂_same.mpr fun m hm => ⟨?_, ?_, rfl⟩)
    · refine List.forall₂_map_right_iff.mpr (List.forall₂_same.mpr fun p hp => ⟨_, ?_, rfl⟩)
      exact h _ (mem_types.mpr (Or.inr (.inl ⟨m, hm, .inl ⟨p, hp, rfl⟩⟩)))
    · exact h _ (mem_types.mpr (Or.inr (.inl ⟨m, hm, .inr rfl⟩)))
  ctor := by
    unfold DataDeclaration.mapTypes
    cases hc : d.ctor with
    | none => exact .none
    | some c =>
      refine .some ⟨List.forall₂_map_right_iff.mpr (List.forall₂_same.mpr fun p hp => ⟨_, ?_, rfl⟩),
        rfl⟩
      exact h _ (mem_types.mpr (Or.inr (.inr ⟨c, hc, p, hp, rfl⟩)))

/-- Every type of a retyped declaration is related to one that it had. -/
theorem Retyped.exists_of_mem_types (h : Retyped R d d') {u : TypeExpr} (hu : u ∈ d'.types) :
    ∃ t ∈ d.types, R t u := by
  rcases mem_types.mp hu with ⟨p', hp', rfl⟩ | ⟨m', hm', hmember⟩ | ⟨c', hc', p', hp', rfl⟩
  · obtain ⟨p, hp, t, ht, rfl⟩ := exists_mem_of_forall₂ h.properties hp'
    exact ⟨p.type, mem_types.mpr (Or.inl ⟨p, hp, rfl⟩), ht⟩
  · obtain ⟨m, hm, hretyped⟩ := exists_mem_of_forall₂ h.methods hm'
    rcases hmember with ⟨p', hp', rfl⟩ | rfl
    · obtain ⟨p, hp, t, ht, rfl⟩ := exists_mem_of_forall₂ hretyped.parameters hp'
      exact ⟨p.type, mem_types.mpr (Or.inr (.inl ⟨m, hm, .inl ⟨p, hp, rfl⟩⟩)), ht⟩
    · exact ⟨m.result, mem_types.mpr (Or.inr (.inl ⟨m, hm, .inr rfl⟩)), hretyped.result⟩
  · have hctor := h.ctor
    rw [Option.mem_def.mp hc'] at hctor
    cases hc : d.ctor with
    | none => rw [hc] at hctor; cases hctor
    | some c =>
      rw [hc] at hctor
      obtain ⟨p, hp, t, ht, rfl⟩ :=
        exists_mem_of_forall₂ (Option.rel_some_some.mp hctor).parameters hp'
      exact ⟨p.type, mem_types.mpr (Or.inr (.inr ⟨c, hc, p, hp, rfl⟩)), ht⟩

end DataDeclaration

end Typings
