import Typings.Proofs.Model.Offered

/-!
# Types of names on declarations

A declaration gives a name the type that it lists, and otherwise the type that it inherits. Dropping
restated properties keeps that type. A class, however, inherits from its parent only: the properties
of interfaces have to be copied into it. Dropping looks at interfaces before the parent, while a
name that the parent has is not copied, so the two steps together lose a type where parent and
interfaces give a name different ones.

## Main definitions

* `Model.effectiveType?`: the type of a name on a declaration.
* `Model.classType?`: the type of a name on a class, which does not inherit from interfaces.

## Main results

* `Model.effectiveTypes_withoutRestated`: dropping restated properties keeps the type of every name
  and leaves nothing to drop.
* `Model.classTypes_withImplemented_iff`: when a class keeps the type of a name that it lists.
-/

namespace Typings

namespace Model

open Walk

variable {model : Model} {d : DataDeclaration} {name : String}

/-- The type of a name on a declaration: as it is listed, otherwise as it is inherited. -/
def effectiveType? (model : Model) (d : DataDeclaration) (name : String) : Option TypeExpr :=
  ((d.property? name).map (·.type)).or ((model.inheritedBy d).type? name)

/-- The type of a name on a class: as it is listed, otherwise as it is inherited from the parent. -/
def classType? (model : Model) (d : DataDeclaration) (name : String) : Option TypeExpr :=
  ((d.property? name).map (·.type)).or ((model.inherited d.parent.toList).type? name)

/-- Among distinct names the first property of a name is also the last one. -/
theorem map_property?_eq (hnodup : (d.properties.map (·.name)).Nodup) :
    (d.property? name).map (·.type) = type? d.properties name := by
  unfold DataDeclaration.property? type?
  rw [List.findRev?_eq_find?_reverse, find?_key_perm (List.reverse_perm _).symm hnodup]

theorem effectiveType?_eq (hnodup : (d.properties.map (·.name)).Nodup) :
    model.effectiveType? d name = type? (model.offers d) name := by
  rw [effectiveType?, map_property?_eq hnodup, type?_inheritedBy, offers, type?_append]

/-! ## Dropping restated properties -/

/-- What is left after dropping restates nothing that is inherited then. -/
theorem withoutRestated_withoutRestated (hwf : model.WellFormed) :
    model.withoutRestated.withoutRestated = model.withoutRestated := by
  have hfixed : ∀ d' ∈ model.withoutRestated.data, model.withoutRestated.dropRestated d' = d' := by
    intro _ hd'
    obtain ⟨d, hd, rfl⟩ := List.mem_map.mp hd'
    have hkept : ∀ p ∈ (model.dropRestated d).properties,
        restates (model.withoutRestated.inheritedBy (model.dropRestated d)) p = false := by
      intro p hp
      rw [restates_eq_of_agrees (walkOf_dropRestated hwf hd)]
      exact (mem_dropRestated_iff.mp hp).2
    rw [dropRestated, List.filter_eq_self.mpr fun p hp => by rw [hkept p hp, Bool.not_false]]
  rw [withoutRestated.eq_1 model.withoutRestated, List.map_congr_left hfixed, List.map_id']

/-- Dropping restated properties keeps the type of every name on every declaration, all else of a
declaration and the properties of its own, and a second time it drops nothing: no other property
that is left says again what is inherited. -/
theorem effectiveTypes_withoutRestated (hwf : model.WellFormed) :
    (∀ d ∈ model.data, ∃ d', model.withoutRestated.findData? d.symbol = some d' ∧
      d' = { d with properties := d'.properties } ∧ d'.properties.Sublist d.properties ∧
      (∀ name, TypeExpr.EqualOrAbsent (model.withoutRestated.effectiveType? d' name)
        (model.effectiveType? d name)) ∧
      (∀ p ∈ d.properties, p.own = true → p ∈ d'.properties) ∧
      (∀ p ∈ d'.properties, p.own = false →
        ¬ TypeExpr.EqualOrAbsent ((model.withoutRestated.inheritedBy d').type? p.name)
          (some p.type))) ∧
    model.withoutRestated.withoutRestated = model.withoutRestated := by
  refine ⟨fun d hd => ?_, withoutRestated_withoutRestated hwf⟩
  have hmem : model.dropRestated d ∈ model.withoutRestated.data := List.mem_map_of_mem hd
  refine ⟨model.dropRestated d, findData?_eq_some hwf.withoutRestated.symbols hmem, rfl,
    List.filter_sublist, fun name => ?_, fun p hp hown => ?_, fun p hp hown hinherited => ?_⟩
  · rw [effectiveType?_eq (names_dropRestated (hwf.names d hd)), effectiveType?_eq (hwf.names d hd)]
    exact offers_dropRestated hwf hd name
  · exact mem_dropRestated_iff.mpr ⟨hp, by simp [restates, hown]⟩
  · have hrestates := (mem_dropRestated_iff.mp hp).2
    rw [← restates_eq_of_agrees (walkOf_dropRestated hwf hd), restates, hown, hinherited.any_equal,
      Option.any_some, TypeExpr.equal_refl] at hrestates
    exact absurd hrestates (by decide)

/-- Three levels: the last declaration restates a property that the one above it restates too, keeps
one of its own, and has a supertype that is not declared. -/
def levels : Model where
  data :=
    [{ symbol := ⟨0⟩, properties := [{ name := "id", type := .primitive .number }] },
      { symbol := ⟨1⟩, interfaces := [.reference ⟨0⟩ []],
        properties := [{ name := "id", type := .primitive .number },
          { name := "title", type := .primitive .string }] },
      { symbol := ⟨2⟩, interfaces := [.reference ⟨1⟩ [], .reference ⟨3⟩ []],
        properties := [{ name := "id", type := .primitive .number },
          { name := "title", type := .primitive .string, own := true }] }]

theorem wellFormed_levels : levels.WellFormed where
  symbols := by decide
  names := by decide
  acyclic := acyclic_of_rank (fun s => if s.id = 3 then 0 else s.id + 1) (by decide)

theorem effectiveTypes_levels :
    levels.withoutRestated.data.map (·.properties.map (·.name)) = [["id"], ["title"], ["title"]] ∧
      levels.withoutRestated.withoutRestated = levels.withoutRestated ∧
      ∃ d', levels.withoutRestated.findData? ⟨2⟩ = some d' ∧
        ∀ name, TypeExpr.EqualOrAbsent (levels.withoutRestated.effectiveType? d' name)
          (levels.effectiveType? levels.data[2] name) := by
  obtain ⟨hkept, hagain⟩ := effectiveTypes_withoutRestated wellFormed_levels
  obtain ⟨d', hfound, -, -, hsame, -⟩ := hkept levels.data[2] (List.getElem_mem _)
  exact ⟨by cbv, hagain, d', hfound, hsame⟩

/-! ## Copying implemented properties -/

theorem names_copyImplemented (hnodup : (d.properties.map (·.name)).Nodup) :
    ((model.copyImplemented d).properties.map (·.name)).Nodup := by
  by_cases hclass : d.isClass = true
  · rw [properties_copyImplemented hclass, List.map_append]
    refine List.nodup_append.mpr ⟨?_, hnodup, ?_⟩
    · unfold implementedBy
      rw [List.map_map]
      exact nodup_names_lastOfEachName _
    · rintro _ hcopied _ hlisted rfl
      obtain ⟨p, hp, hname⟩ := List.mem_map.mp hcopied
      obtain ⟨q, hq, rfl⟩ := List.mem_map.mp hlisted
      have hnone : type? (model.implementedBy d) q.name = none := by
        rw [type?_implementedBy, type?_append, type?_eq_some_of_mem hnodup hq]
        rfl
      exact type?_eq_none_iff.mp hnone p hp hname
  · rwa [copyImplemented_of_not_isClass hclass]

/-- A class with its copies gives a name the type that it lists, otherwise that of its parent, and
only then that of its interfaces. -/
theorem classType?_copyImplemented (hwf : model.WellFormed) (hd : d ∈ model.data)
    (hclass : d.isClass = true) :
    TypeExpr.EqualOrAbsent (model.withImplemented.classType? (model.copyImplemented d) name)
      ((type? d.properties name).or ((type? (model.walk d.parent.toList) name).or
        (type? (model.walk d.interfaces) name))) := by
  have hparent : (model.copyImplemented d).parent = d.parent := by
    rw [← DataDeclaration.frame_parent, frame_copyImplemented, DataDeclaration.frame_parent]
  have habove := walk_withImplemented hwf d.parent.toList name
  rw [classType?, map_property?_eq (names_copyImplemented (hwf.names d hd)), hparent,
    type?_inherited, properties_copyImplemented hclass, type?_append, Option.or_assoc]
  cases hlisted : type? d.properties name with
  | some t => exact .refl _
  | none =>
    rw [Option.none_or, Option.none_or, type?_implementedBy, type?_append, hlisted, Option.none_or]
    cases hinherited : type? (model.walk d.parent.toList) name with
    | none =>
      rw [if_pos rfl, habove.eq_none_iff.mpr hinherited, Option.or_none, Option.none_or]
      exact .refl _
    | some v =>
      rw [if_neg (Option.some_ne_none v), Option.none_or, Option.some_or, ← hinherited]
      exact habove

/-- Both steps together leave a class the type of a name that it lists, unless the property was
dropped for the sake of an interface and the parent gives the name another type. -/
theorem classTypes_withImplemented_iff (hwf : model.WellFormed) {p : Property} (hd : d ∈ model.data)
    (hclass : d.isClass = true) (hp : p ∈ d.properties) :
    (∃ d', model.withoutRestated.withImplemented.findData? d.symbol = some d' ∧
      (model.withoutRestated.withImplemented.classType? d' p.name).any (·.equal p.type) = true) ↔
    ¬ (p.own = false ∧
      ((model.inherited d.interfaces).type? p.name).any (·.equal p.type) = true ∧
      ((model.inherited d.parent.toList).type? p.name).any (!·.equal p.type) = true) := by
  rw [type?_inherited, type?_inherited]
  have hmem : model.dropRestated d ∈ model.withoutRestated.data := List.mem_map_of_mem hd
  have hmem' : model.withoutRestated.copyImplemented (model.dropRestated d) ∈
      model.withoutRestated.withImplemented.data := List.mem_map_of_mem hmem
  have hsymbols : (model.withoutRestated.withImplemented.data.map (·.symbol)).Nodup := by
    rw [symbols_eq_of_frames frames_withImplemented]
    exact hwf.withoutRestated.symbols
  have hfound := findData?_eq_some hsymbols hmem'
  rw [← DataDeclaration.frame_symbol, frame_copyImplemented, frame_dropRestated,
    DataDeclaration.frame_symbol] at hfound
  have htype := (@classType?_copyImplemented _ _ p.name hwf.withoutRestated hmem hclass).trans
    ((TypeExpr.EqualOrAbsent.refl _).or
      ((walk_withoutRestated hwf d.parent.toList p.name).or
        (walk_withoutRestated hwf d.interfaces p.name)))
  have hrestates : restates (model.inheritedBy d) p = (!p.own &&
      ((type? (model.walk d.interfaces) p.name).or
        (type? (model.walk d.parent.toList) p.name)).any (·.equal p.type)) := by
    rw [restates_inheritedBy, walkOf_eq_walk hwf.acyclic hd, DataDeclaration.supertypes,
      walk_append, type?_append]
  simp only [hfound, Option.some.injEq, exists_eq_left', htype.any_equal]
  by_cases hkept : restates (model.inheritedBy d) p = false
  · rw [type?_eq_some_of_mem (names_dropRestated (hwf.names d hd))
      (mem_dropRestated_iff.mpr ⟨hp, hkept⟩), Option.some_or, Option.any_some]
    refine iff_of_true p.type.equal_refl ?_
    rintro ⟨hown, hinterfaces, -⟩
    obtain ⟨u, hu, hequal⟩ := (Option.any_eq_true _ _).mp hinterfaces
    rw [hrestates, hown, hu, Option.some_or, Option.any_some, hequal] at hkept
    exact absurd hkept (by decide)
  · rw [Bool.not_eq_false] at hkept
    rw [type?_dropRestated_eq_none (hwf.names d hd) hp hkept, Option.none_or]
    rw [hrestates, Bool.and_eq_true, Bool.not_eq_true'] at hkept
    obtain ⟨hown, hinherited⟩ := hkept
    cases hparent : type? (model.walk d.parent.toList) p.name with
    | none =>
      rw [hparent, Option.or_none] at hinherited
      rw [Option.none_or]
      exact iff_of_true hinherited (by simp)
    | some v =>
      rw [hparent] at hinherited
      rw [Option.some_or, Option.any_some]
      by_cases hequal : v.equal p.type = true
      · exact iff_of_true hequal (by simp [hequal])
      · refine iff_of_false hequal (not_not_intro ⟨hown, ?_, by simpa using hequal⟩)
        cases hinterfaces : type? (model.walk d.interfaces) p.name with
        | none =>
          rw [hinterfaces] at hinherited
          exact absurd hinherited hequal
        | some u =>
          rw [hinterfaces] at hinherited
          exact hinherited

/-- A class that has a name from its parent and, with another type, from its interface. -/
def divided : Model where
  data :=
    [{ symbol := ⟨0⟩, isClass := true
       properties := [{ name := "id", type := .primitive .number }] },
      { symbol := ⟨1⟩, properties := [{ name := "id", type := .primitive .string }] },
      { symbol := ⟨2⟩, isClass := true, parent := some (.reference ⟨0⟩ []),
        interfaces := [.reference ⟨1⟩ []],
        properties := [{ name := "id", type := .primitive .string }] }]

theorem wellFormed_divided : divided.WellFormed where
  symbols := by decide
  names := by decide
  acyclic := acyclic_of_rank Symbol.id (by decide)

theorem not_classTypes_divided :
    ¬ ∃ d', divided.withoutRestated.withImplemented.findData? ⟨2⟩ = some d' ∧
      (divided.withoutRestated.withImplemented.classType? d' "id").any
        (·.equal (.primitive .string)) = true :=
  (classTypes_withImplemented_iff wellFormed_divided (d := divided.data[2]) (List.getElem_mem _) rfl
    (p := { name := "id", type := .primitive .string }) List.mem_cons_self).not.mpr
      (not_not_intro ⟨rfl, by cbv, by cbv⟩)

end Model

end Typings
