import Typings.Proofs.Enumeration
import Typings.Proofs.Model.Inherited
import Typings.Proofs.Type.Vocabulary

/-!
# Occurrences of properties above supertypes

The walk through supertypes meets a property once for every way that leads to it. A way is named by
the position of every reference on it among the supertypes of its declaration. The properties of a
declaration stand behind its supertypes, so the walk meets what is above in the order of the ways.

## Main definitions

* `Occurrence`: a property with the way that leads to it and the type arguments on the way.
* `Model.Occurs`: what is met above supertypes, on ways that enter no declaration twice.
* `Occurrence.Enumerates`: a list of occurrences in the order of their ways.
* `Model.occurrencesAbove`: what the walk meets.

## Main results

* `Model.map_property_occurrencesAbove`: the walk has the properties of the occurrences.
* `Model.enumerates_occurrencesAbove`: the walk meets each occurrence once, in the order of the
  ways.
-/

namespace Typings

/-- A property that is met above supertypes. -/
structure Occurrence where
  /-- The positions of the references on the way, each among the supertypes of its declaration, and
  then the position of the property, behind the supertypes of the declaration that lists it. -/
  way : List Nat
  /-- The type arguments of the references on the way, each with the type parameter that it is given
  for. The reference to the declaration that lists the property comes first. -/
  arguments : List (List (String × TypeExpr))
  property : Property

namespace Occurrence

/-- A property where it is listed. -/
def listed (d : DataDeclaration) (position : Nat) (p : Property) : Occurrence :=
  ⟨[d.supertypes.length + position], [], p⟩

/-- What is met through one more reference. -/
def through (position : Nat) (arguments : List (String × TypeExpr)) (x : Occurrence) : Occurrence :=
  { x with way := position :: x.way, arguments := x.arguments ++ [arguments] }

/-- What is met if one more supertype stands in front. -/
def behind (x : Occurrence) : Occurrence :=
  { x with way := x.way.modifyHead (· + 1) }

/-- Whether a list has the occurrences with a property, each once, in the order of their ways. -/
abbrev Enumerates : List Occurrence → (Occurrence → Prop) → Prop :=
  EnumeratesBy way

theorem way_through_lt (i : Nat) (arguments arguments' : List (String × TypeExpr))
    {x y : Occurrence}
    (h : x.way < y.way) : (x.through i arguments).way < (y.through i arguments').way :=
  List.cons_lt_cons_iff.mpr (.inr ⟨rfl, h⟩)

theorem way_behind_lt {x y : Occurrence} (h : x.way < y.way) : x.behind.way < y.behind.way := by
  unfold behind
  dsimp only
  generalize x.way = v at h
  generalize y.way = w at h
  cases w with
  | nil => exact absurd h (List.not_lt_nil v)
  | cons j w =>
    cases v with
    | nil => exact List.nil_lt_cons _ _
    | cons i v =>
      rw [List.cons_lt_cons_iff] at h
      exact List.cons_lt_cons_iff.mpr (h.imp Nat.succ_lt_succ (And.imp_left (congrArg _)))

/-- The properties of a declaration, where they are listed. -/
theorem enumerates_listed (d : DataDeclaration) :
    Enumerates (d.properties.mapIdx (listed d)) fun x =>
      ∃ j p, d.properties[j]? = some p ∧ listed d j p = x := by
  refine ⟨List.pairwise_iff_getElem.mpr fun i j hi hj hlt => ?_, fun x => ?_⟩
  · rw [List.getElem_mapIdx, List.getElem_mapIdx]
    exact List.cons_lt_cons_iff.mpr (.inl (Nat.add_lt_add_left hlt _))
  · rw [List.mem_mapIdx]
    constructor
    · rintro ⟨j, hj, rfl⟩
      exact ⟨j, _, List.getElem?_eq_getElem hj, rfl⟩
    · rintro ⟨j, p, hp, rfl⟩
      obtain ⟨hj, rfl⟩ := List.getElem?_eq_some_iff.mp hp
      exact ⟨j, hj, rfl⟩

end Occurrence

namespace Model

open Occurrence

variable (model : Model)

/-- What is met above supertypes: the properties of the declarations that they refer to, and what is
met above these. The declarations on the way are in `path`, and none of them is entered again. -/
inductive Occurs : List Symbol → List TypeExpr → Occurrence → Prop
  | listed {path : List Symbol} {types : List TypeExpr} {i j : Nat} {type : TypeExpr}
      {d : DataDeclaration} {p : Property} :
      types[i]? = some type → model.supertype? type = some d → d.symbol ∉ path →
      d.properties[j]? = some p →
      Occurs path types ((Occurrence.listed d j p).through i (d.typeParameters.zip type.parts))
  | above {path : List Symbol} {types : List TypeExpr} {i : Nat} {type : TypeExpr}
      {d : DataDeclaration} {x : Occurrence} :
      types[i]? = some type → model.supertype? type = some d → d.symbol ∉ path →
      Occurs (d.symbol :: path) d.supertypes x →
      Occurs path types (x.through i (d.typeParameters.zip type.parts))

/-- What the walk through supertypes meets. -/
def occurrencesAbove (path : List Symbol) : List TypeExpr → List Occurrence
  | [] => []
  | type :: rest =>
    match _found : model.supertype? type with
    | none => (occurrencesAbove path rest).map behind
    | some d =>
      if _again : d.symbol ∈ path then (occurrencesAbove path rest).map behind
      else
        (occurrencesAbove (d.symbol :: path) d.supertypes ++ d.properties.mapIdx (listed d)).map
            (through 0 (d.typeParameters.zip type.parts)) ++
          (occurrencesAbove path rest).map behind
termination_by supertypes => (unseen (model.data.map (·.symbol)) path, supertypes.length)
decreasing_by
  · exact Prod.Lex.right _ (by simp)
  · exact Prod.Lex.right _ (by simp)
  · exact Prod.Lex.left _ _ (unseen_cons_lt (symbol_mem_of_supertype? _found) _again)
  · exact Prod.Lex.right _ (by simp)

variable {model} {path : List Symbol} {type : TypeExpr} {types rest : List TypeExpr}
  {d : DataDeclaration} {x y : Occurrence}

/-- The walk has the properties of the occurrences. -/
theorem map_property_occurrencesAbove (path : List Symbol) (types : List TypeExpr) :
    (model.occurrencesAbove path types).map (·.property) = model.propertiesAbove path types := by
  have hbehind : ∀ xs : List Occurrence, (xs.map behind).map (·.property) = xs.map (·.property) :=
    fun xs => List.map_map
  induction path, types using propertiesAbove.induct model with
  | case1 path => rw [propertiesAbove, occurrencesAbove, List.map_nil]
  | case2 path type rest hnone ih => rw [propertiesAbove, occurrencesAbove, hnone, hbehind, ih]
  | case3 path type rest d hfound hagain ih =>
    rw [propertiesAbove, occurrencesAbove, hfound]
    simp only [hagain, dif_pos]
    rw [hbehind, ih]
  | case4 path type rest d hfound hnew ihabove ihrest =>
    have hthrough : ∀ (xs : List Occurrence) arguments,
        (xs.map (through 0 arguments)).map (·.property) = xs.map (·.property) :=
      fun xs _ => List.map_map
    have hlisted : (d.properties.mapIdx (listed d)).map (·.property) = d.properties := by
      refine List.ext_getElem (by simp) fun j _ _ => ?_
      rw [List.getElem_map, List.getElem_mapIdx]
      rfl
    rw [propertiesAbove, occurrencesAbove, hfound]
    simp only [hnew, dif_neg, not_false_eq_true]
    rw [List.map_append, hthrough, hbehind, List.map_append, ihabove, ihrest, hlisted]

/-! ## The order of the walk -/

variable (model) in
/-- What is met at a declaration: its properties, and what is above it. -/
def OccursAt (path : List Symbol) (d : DataDeclaration) (x : Occurrence) : Prop :=
  model.Occurs (d.symbol :: path) d.supertypes x ∨
    ∃ j p, d.properties[j]? = some p ∧ listed d j p = x

/-- Something is met through a reference, at the declaration that it refers to. -/
theorem occurs_iff :
    model.Occurs path types x ↔ ∃ i type d y, types[i]? = some type ∧
      model.supertype? type = some d ∧ d.symbol ∉ path ∧ model.OccursAt path d y ∧
      y.through i (d.typeParameters.zip type.parts) = x := by
  constructor
  · intro h
    cases h with
    | listed htype hfound hnew hp =>
      exact ⟨_, _, _, _, htype, hfound, hnew, .inr ⟨_, _, hp, rfl⟩, rfl⟩
    | above htype hfound hnew hx => exact ⟨_, _, _, _, htype, hfound, hnew, .inl hx, rfl⟩
  · rintro ⟨i, type, d, y, htype, hfound, hnew, hy | ⟨j, p, hp, rfl⟩, rfl⟩
    · exact .above htype hfound hnew hy
    · exact .listed htype hfound hnew hp

/-- Something is met through the first supertype or through a later one. -/
theorem occurs_cons_iff :
    model.Occurs path (type :: rest) x ↔
      (∃ d y, model.supertype? type = some d ∧ d.symbol ∉ path ∧ model.OccursAt path d y ∧
        y.through 0 (d.typeParameters.zip type.parts) = x) ∨
      ∃ y, model.Occurs path rest y ∧ y.behind = x := by
  constructor
  · intro h
    obtain ⟨i, type', d, y, htype, hfound, hnew, hy, rfl⟩ := occurs_iff.mp h
    cases i with
    | zero =>
      obtain rfl := Option.some.inj htype
      exact .inl ⟨d, y, hfound, hnew, hy, rfl⟩
    | succ i =>
      exact .inr ⟨_, occurs_iff.mpr ⟨i, type', d, y, htype, hfound, hnew, hy, rfl⟩, rfl⟩
  · rintro (⟨d, y, hfound, hnew, hy, rfl⟩ | ⟨y, hy, rfl⟩)
    · exact occurs_iff.mpr ⟨0, type, d, y, rfl, hfound, hnew, hy, rfl⟩
    · obtain ⟨i, type', d, z, htype, hfound, hnew, hz, rfl⟩ := occurs_iff.mp hy
      exact occurs_iff.mpr ⟨i + 1, type', d, z, htype, hfound, hnew, hz, rfl⟩

/-- A way begins with the position of a supertype. -/
theorem Occurs.exists_way (h : model.Occurs path types x) :
    ∃ i rest, x.way = i :: rest ∧ i < types.length := by
  obtain ⟨i, type, d, y, htype, -, -, -, rfl⟩ := occurs_iff.mp h
  exact ⟨i, y.way, rfl, (List.getElem?_eq_some_iff.mp htype).choose⟩

/-- What is above a declaration is met before its properties. -/
theorem Occurs.way_lt_listed (h : model.Occurs path d.supertypes x) (j : Nat) (p : Property) :
    x.way < (Occurrence.listed d j p).way := by
  obtain ⟨i, rest, hway, hlt⟩ := h.exists_way
  rw [hway]
  exact List.cons_lt_cons_iff.mpr (.inl (Nat.lt_add_right j hlt))

/-- What is met through the first supertype comes before what is met through the others. -/
theorem Occurs.way_through_lt_behind (h : model.Occurs path types y) (x : Occurrence)
    (arguments : List (String × TypeExpr)) : (x.through 0 arguments).way < y.behind.way := by
  obtain ⟨i, rest, hway, -⟩ := h.exists_way
  unfold behind
  rw [hway]
  exact List.cons_lt_cons_iff.mpr (.inl (Nat.succ_pos i))

theorem not_occurs_nil : ¬model.Occurs path [] x := by
  intro h
  obtain ⟨i, rest, -, hlt⟩ := h.exists_way
  exact Nat.not_lt_zero i hlt

/-- The walk meets each occurrence once, in the order of the ways. -/
theorem enumerates_occurrencesAbove (path : List Symbol) (types : List TypeExpr) :
    Enumerates (model.occurrencesAbove path types) (model.Occurs path types) := by
  induction path, types using occurrencesAbove.induct model with
  | case1 path =>
    rw [occurrencesAbove]
    exact ⟨.nil, fun x => iff_of_false List.not_mem_nil not_occurs_nil⟩
  | case2 path type rest hnone ih =>
    rw [occurrencesAbove, hnone]
    refine (ih.map fun _ _ => way_behind_lt).congr fun x => ?_
    rw [occurs_cons_iff, hnone]
    exact (or_iff_right (by rintro ⟨_, _, ⟨⟩, _⟩)).symm
  | case3 path type rest d hfound hagain ih =>
    rw [occurrencesAbove, hfound]
    simp only [hagain, dif_pos]
    refine (ih.map fun _ _ => way_behind_lt).congr fun x => ?_
    rw [occurs_cons_iff, hfound]
    refine (or_iff_right ?_).symm
    rintro ⟨_, _, ⟨⟩, hnew, _⟩
    exact hnew hagain
  | case4 path type rest d hfound hnew ihabove ihrest =>
    rw [occurrencesAbove, hfound]
    simp only [hnew, dif_neg, not_false_eq_true]
    have hat : Enumerates
        (model.occurrencesAbove (d.symbol :: path) d.supertypes ++ d.properties.mapIdx (listed d))
        (model.OccursAt path d) := by
      refine ihabove.append (enumerates_listed d) ?_
      rintro x _ hx ⟨j, p, -, rfl⟩
      exact hx.way_lt_listed j p
    refine ((hat.map fun _ _ => way_through_lt 0 _ _).append (ihrest.map fun _ _ => way_behind_lt)
      ?_).congr fun x => ?_
    · rintro _ _ ⟨x, -, rfl⟩ ⟨y, hy, rfl⟩
      exact hy.way_through_lt_behind x _
    · rw [occurs_cons_iff, hfound]
      refine or_congr_left ⟨?_, ?_⟩
      · rintro ⟨y, hy, rfl⟩
        exact ⟨d, y, rfl, hnew, hy, rfl⟩
      · rintro ⟨_, y, ⟨⟩, -, hy, rfl⟩
        exact ⟨y, hy, rfl⟩

end Model

end Typings
