import Typings.Proofs.Model.Occurrences
import Typings.Proofs.Model.Offered

/-!
# Implemented properties

A class copies the properties that are met above its interfaces, unless it lists their name or
inherits it from its parent. A name that is met several times is copied where it is met last, which
is where the map of inherited types takes its type from. This is so in any hierarchy: cycles and
missing declarations only take ways away, and a name that a declaration lists twice is met twice.

## Main definitions

* `Model.Copies`: what a class copies of the properties above its interfaces.
* `Occurrence.copy`: the copy of a property.

## Main results

* `Model.exists_enumerates_implementedBy`: the copies of a class, in the order of the ways.
* `Model.copies_withImplemented`: what copying makes of each declaration.
-/

namespace Typings

/-- The copy of a property for a class that implements it, not marked as the class's own. -/
def Occurrence.copy (x : Occurrence) : Property :=
  { x.property with own := false }

namespace Model

open Walk Occurrence

variable {model : Model}

/-- Whether a class copies what is met above its interfaces: the last occurrence of a name that the
class neither lists nor inherits from its parent. -/
structure Copies (model : Model) (d : DataDeclaration) (x : Occurrence) : Prop where
  occurs : model.Occurs [] d.interfaces x
  unlisted : ∀ p ∈ d.properties, p.name ≠ x.property.name
  uninherited : (model.inherited d.parent.toList).type? x.property.name = none
  last : ∀ y, model.Occurs [] d.interfaces y → y.property.name = x.property.name → ¬x.way < y.way

/-- Of occurrences in the order of their ways, those that are the last ones of their names. -/
theorem exists_lastOfEachName {xs : List Occurrence} (h : xs.Pairwise fun x y => x.way < y.way) :
    ∃ ys : List Occurrence, ys.Sublist xs ∧
      lastOfEachName (xs.map (·.property)) = ys.map (·.property) ∧ ∀ x, x ∈ ys ↔ x ∈ xs ∧
        ∀ y ∈ xs, y.property.name = x.property.name → ¬x.way < y.way := by
  induction xs with
  | nil => exact ⟨[], .slnil, rfl, by simp⟩
  | cons z rest ih =>
    obtain ⟨hlater, hrest⟩ := List.pairwise_cons.mp h
    obtain ⟨ys, hsub, heq, hmem⟩ := ih hrest
    have hfirst : ∀ x ∈ rest, (∀ y ∈ z :: rest, y.property.name = x.property.name →
        ¬x.way < y.way) ↔ ∀ y ∈ rest, y.property.name = x.property.name → ¬x.way < y.way := by
      intro x hx
      rw [List.forall_mem_cons]
      exact and_iff_right fun _ => List.lt_asymm (hlater x hx)
    have htail : ∀ x ∈ rest, x ∈ ys ↔
        ∀ y ∈ z :: rest, y.property.name = x.property.name → ¬x.way < y.way := by
      intro x hx
      rw [hfirst x hx, hmem x, and_iff_right hx]
    rw [List.map_cons, lastOfEachName]
    split
    case isTrue hagain =>
      obtain ⟨q, hq, hname⟩ := List.any_eq_true.mp hagain
      obtain ⟨y, hy, rfl⟩ := List.mem_map.mp hq
      refine ⟨ys, hsub.cons z, heq, fun x => ⟨fun hx => ?_, ?_⟩⟩
      · have hx' := hsub.subset hx
        exact ⟨List.mem_cons_of_mem z hx', (htail x hx').mp hx⟩
      · rintro ⟨hx, hlast⟩
        rcases List.mem_cons.mp hx with rfl | hx
        · exact absurd (hlater y hy)
            (hlast y (List.mem_cons_of_mem x hy) (beq_iff_eq.mp hname))
        · exact (htail x hx).mpr hlast
    case isFalse hnever =>
      refine ⟨z :: ys, hsub.cons_cons z, by rw [heq, List.map_cons], fun x => ?_⟩
      rw [List.mem_cons, List.mem_cons]
      constructor
      · rintro (rfl | hx)
        · refine ⟨.inl rfl, List.forall_mem_cons.mpr ⟨fun _ => List.lt_irrefl _, ?_⟩⟩
          intro y hy hname
          refine absurd (List.any_eq_true.mpr ⟨y.property, ?_⟩) hnever
          exact ⟨List.mem_map_of_mem hy, beq_iff_eq.mpr hname⟩
        · have hx' := hsub.subset hx
          exact ⟨.inr hx', (htail x hx').mp hx⟩
      · rintro ⟨rfl | hx, hlast⟩
        · exact .inl rfl
        · exact .inr ((htail x hx).mpr hlast)

/-- A class copies what it has to copy, in the order of the ways. -/
theorem exists_enumerates_implementedBy (model : Model) (d : DataDeclaration) :
    ∃ copied, Enumerates copied (model.Copies d) ∧
      model.implementedBy d = copied.map (·.copy) := by
  let absent : Property → Bool := fun p => p.name ∉ model.presentNames d
  have habsent : ∀ p, absent p = true ↔ (∀ q ∈ d.properties, q.name ≠ p.name) ∧
      (model.inherited d.parent.toList).type? p.name = none :=
    fun p => decide_eq_true_iff.trans notMem_presentNames_iff
  obtain ⟨hsorted, hoccurs⟩ := model.enumerates_occurrencesAbove [] d.interfaces
  obtain ⟨ys, hsub, heq, hmem⟩ :=
    exists_lastOfEachName (hsorted.filter fun x : Occurrence => absent x.property)
  refine ⟨ys, ⟨(hsorted.filter _).sublist hsub, fun x => ?_⟩, ?_⟩
  · rw [hmem x, List.mem_filter, hoccurs x]
    constructor
    · rintro ⟨⟨hx, hpresent⟩, hlast⟩
      obtain ⟨hlisted, hinherited⟩ := (habsent x.property).mp hpresent
      refine ⟨hx, hlisted, hinherited, fun y hy hname => ?_⟩
      have hpresent' : absent y.property = true := by
        rw [habsent, hname]
        exact ⟨hlisted, hinherited⟩
      exact hlast y (List.mem_filter.mpr ⟨(hoccurs y).mpr hy, hpresent'⟩) hname
    · rintro ⟨hx, hlisted, hinherited, hlast⟩
      refine ⟨⟨hx, (habsent x.property).mpr ⟨hlisted, hinherited⟩⟩, fun y hy hname => ?_⟩
      exact hlast y ((hoccurs y).mp (List.mem_filter.mp hy).1) hname
  · have hwalk : model.walk d.interfaces =
        (model.occurrencesAbove [] d.interfaces).map (·.property) :=
      (map_property_occurrencesAbove [] d.interfaces).symm
    have hmissing : (model.walk d.interfaces).filter absent =
        ((model.occurrencesAbove [] d.interfaces).filter fun x => absent x.property).map
          (·.property) := by
      rw [hwalk, List.filter_map]
      rfl
    show (lastOfEachName ((model.walk d.interfaces).filter absent)).map _ = _
    rw [hmissing, heq, List.map_map]
    rfl

/-- A copy has the type that its name has above the interfaces. -/
theorem type?_inherited_of_mem_implementedBy {d : DataDeclaration} {p : Property}
    (h : p ∈ model.implementedBy d) :
    (model.inherited d.interfaces).type? p.name = some p.type := by
  rw [type?_inherited]
  have hnodup : ((model.implementedBy d).map (·.name)).Nodup := by
    unfold implementedBy
    rw [List.map_map]
    exact nodup_names_lastOfEachName _
  have htype : type? (model.implementedBy d) p.name = _ := type?_implementedBy d p.name
  rw [type?_eq_some_of_mem hnodup h] at htype
  split at htype
  · exact htype.symm
  · cases htype

/-- Copying implemented properties leaves interfaces, aliases and enums as they are. A class gets
its copies in front of the properties that it lists: the last occurrence above its interfaces of
every name that it neither lists nor inherits from its parent, in the order of the walk, not marked
as its own. Each of them has the type that the map of inherited types has for its name above the
interfaces. -/
theorem copies_withImplemented (model : Model) :
    model.withImplemented = { model with data := model.withImplemented.data } ∧
    List.Forall₂ (fun d d' =>
        (d.isClass = false → d' = d) ∧
        (d.isClass = true → ∃ copied, Enumerates copied (model.Copies d) ∧
          d' = { d with properties := copied.map (·.copy) ++ d.properties } ∧
          ∀ x ∈ copied,
            (model.inherited d.interfaces).type? x.property.name = some x.property.type))
      model.data model.withImplemented.data := by
  refine ⟨rfl, List.forall₂_map_right_iff.mpr (List.forall₂_same.mpr fun d _ => ⟨?_, ?_⟩)⟩
  · intro hinterface
    exact copyImplemented_of_not_isClass (by rw [hinterface]; exact Bool.false_ne_true)
  · intro hclass
    obtain ⟨copied, hcopied, heq⟩ := model.exists_enumerates_implementedBy d
    refine ⟨copied, hcopied, ?_, fun x hx => ?_⟩
    · rw [copyImplemented_of_isClass hclass, heq]
    · have hcopy : x.copy ∈ model.implementedBy d := heq ▸ List.mem_map_of_mem hx
      exact type?_inherited_of_mem_implementedBy (p := x.copy) hcopy

end Model

end Typings
