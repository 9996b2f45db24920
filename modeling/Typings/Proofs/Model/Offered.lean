import Typings.Proofs.Model.Hierarchy
import Typings.Proofs.Type.Equality

/-!
# What declarations offer

A declaration offers to its subtypes the names that it inherits and those that it lists, the latter
with priority. Dropping restated properties and copying implemented ones are decided on one model
and take effect on all of its declarations at once. Neither changes what a declaration offers, up to
equality of types, and this is what the two steps owe to each other.

## Main definitions

* `Model.Walk.Agrees`: two lists give each name an equal type, or both give it none.

## Main results

* `Model.offers_dropRestated`, `Model.walk_withoutRestated`: dropping restated properties changes
  nothing of what is offered.
* `Model.offers_copyImplemented`, `Model.walk_withImplemented`: neither does copying implemented
  ones.
-/

namespace Typings

namespace Model

/-! ## Types of names -/

namespace Walk

variable {xs xs' ys ys' : Walk} {name : String}

/-- Among distinct names the type of a name is that of its one property. -/
theorem type?_eq_some_of_mem (hnodup : (xs.map (·.name)).Nodup) {p : Property} (hp : p ∈ xs) :
    type? xs p.name = some p.type := by
  have hnodup' : (xs.reverse.map (·.name)).Nodup := by
    rwa [List.map_reverse, List.nodup_reverse]
  unfold type?
  rw [List.findRev?_eq_find?_reverse,
    (find?_key_eq_some_iff hnodup').mpr ⟨List.mem_reverse.mpr hp, rfl⟩, Option.map_some]

/-- Whether two lists give each name an equal type, or both give it none. -/
def Agrees (xs ys : Walk) : Prop :=
  ∀ name, TypeExpr.EqualOrAbsent (type? xs name) (type? ys name)

namespace Agrees

theorem of_eq (h : ∀ name, type? xs name = type? ys name) : xs.Agrees ys :=
  fun name => h name ▸ .refl _

theorem refl (xs : Walk) : xs.Agrees xs :=
  of_eq fun _ => rfl

theorem trans {zs : Walk} (h : xs.Agrees ys) (h' : ys.Agrees zs) : xs.Agrees zs :=
  fun name => (h name).trans (h' name)

theorem append (hx : xs.Agrees xs') (hy : ys.Agrees ys') : Agrees (xs ++ ys) (xs' ++ ys') := by
  intro name
  rw [type?_append, type?_append]
  exact (hy name).or (hx name)

end Agrees

end Walk

open Walk

variable {model model' : Model}

/-! ## Steps that keep what is offered

A step rebuilds each declaration within its frame, so a supertype leads to the rebuilt declaration.
If each declaration offers what it offered whenever its supertypes do, then every declaration
does. -/

section Step

variable {f : DataDeclaration → DataDeclaration}

theorem walk_agrees (hf : ∀ d, (f d).frame = d.frame) (hdata : model'.data = model.data.map f)
    {types : List TypeExpr}
    (h : ∀ type ∈ types, ∀ a, model.supertype? type = some a →
      (model'.offers (f a)).Agrees (model.offers a)) :
    (model'.walk types).Agrees (model.walk types) := by
  have hsymbol : ∀ d, (f d).symbol = d.symbol := fun d => by
    rw [← d.frame_symbol, ← hf d, (f d).frame_symbol]
  have hsupertype : ∀ type : TypeExpr, model'.supertype? type = (model.supertype? type).map f := by
    intro type
    unfold supertype?
    simp only [findData?_map hsymbol hdata, Option.map_bind, Function.comp_def]
  rw [walk_eq_flatMap, walk_eq_flatMap]
  induction types with
  | nil => exact .refl _
  | cons type rest ih =>
    rw [List.flatMap_cons, List.flatMap_cons]
    refine Agrees.append ?_ (ih fun t ht => h t (List.mem_cons_of_mem _ ht))
    unfold offersOf
    rw [hsupertype]
    cases ha : model.supertype? type with
    | none => exact .refl _
    | some a => exact h type List.mem_cons_self a ha

theorem offers_agrees (hwf : model.WellFormed) (hf : ∀ d, (f d).frame = d.frame)
    (hdata : model'.data = model.data.map f)
    (step : ∀ d ∈ model.data,
      (∀ types ⊆ d.supertypes, (model'.walk types).Agrees (model.walk types)) →
      Agrees (model'.walk d.supertypes ++ (f d).properties)
        (model.walk d.supertypes ++ d.properties)) :
    ∀ d ∈ model.data, (model'.offers (f d)).Agrees (model.offers d) := by
  have hframes : model'.frames = model.frames := by
    unfold frames
    rw [hdata]
    exact frames_map hf
  refine hwf.induction fun d hd ih => ?_
  have hmem : f d ∈ model'.data := hdata ▸ List.mem_map_of_mem hd
  have hsupertypes : (f d).supertypes = d.supertypes := by
    rw [← d.frame_supertypes, ← hf d, (f d).frame_supertypes]
  unfold offers
  rw [walkOf_eq_walk (hwf.acyclic.congr hframes) hmem, hsupertypes,
    walkOf_eq_walk hwf.acyclic hd]
  refine step d hd fun types htypes => walk_agrees hf hdata fun type htype a ha => ?_
  exact ih type (htypes htype) a ha

end Step

/-! ## Restated properties -/

section Restated

theorem frame_dropRestated (d : DataDeclaration) : (model.dropRestated d).frame = d.frame := rfl

/-- What is restated is the type of the last property that is met above. -/
theorem restates_inheritedBy (model : Model) (d : DataDeclaration) (p : Property) :
    restates (model.inheritedBy d) p =
      (!p.own && ((model.walkOf d).type? p.name).any (·.equal p.type)) := by
  rw [restates, type?_inheritedBy]

variable {d : DataDeclaration}

theorem restates_eq_of_agrees {d' : DataDeclaration}
    (h : (model.walkOf d).Agrees (model'.walkOf d')) (p : Property) :
    restates (model.inheritedBy d) p = restates (model'.inheritedBy d') p := by
  rw [restates_inheritedBy, restates_inheritedBy, (h p.name).any_equal]

theorem mem_dropRestated_iff {p : Property} :
    p ∈ (model.dropRestated d).properties ↔
      p ∈ d.properties ∧ restates (model.inheritedBy d) p = false := by
  simp [dropRestated]

theorem names_dropRestated (hnodup : (d.properties.map (·.name)).Nodup) :
    ((model.dropRestated d).properties.map (·.name)).Nodup :=
  hnodup.sublist (List.filter_sublist.map _)

theorem WellFormed.withoutRestated (hwf : model.WellFormed) : model.withoutRestated.WellFormed where
  symbols := by
    rw [symbols_eq_of_frames frames_withoutRestated]
    exact hwf.symbols
  names := by
    intro _ hd'
    obtain ⟨d, hd, rfl⟩ := List.mem_map.mp hd'
    exact names_dropRestated (hwf.names d hd)
  acyclic := hwf.acyclic.congr frames_withoutRestated

/-- No other property has the name of a dropped one. -/
theorem type?_dropRestated_eq_none (hnodup : (d.properties.map (·.name)).Nodup) {p : Property}
    (hp : p ∈ d.properties) (hdropped : restates (model.inheritedBy d) p = true) :
    type? (model.dropRestated d).properties p.name = none := by
  rw [type?_eq_none_iff]
  intro q hq hname
  obtain ⟨hmem, hkept⟩ := mem_dropRestated_iff.mp hq
  rw [List.inj_on_of_nodup_map hnodup hmem hp hname, hdropped] at hkept
  exact Bool.noConfusion hkept

/-- A dropped property comes back with an equal type through inheritance. -/
theorem agrees_dropRestated (hnodup : (d.properties.map (·.name)).Nodup) :
    Agrees (model.walkOf d ++ (model.dropRestated d).properties)
      (model.walkOf d ++ d.properties) := by
  intro name
  rw [type?_append, type?_append]
  by_cases hlists : ∃ p ∈ d.properties, p.name = name
  · obtain ⟨p, hp, rfl⟩ := hlists
    rw [type?_eq_some_of_mem hnodup hp, Option.some_or]
    by_cases hkept : restates (model.inheritedBy d) p = false
    · have hp' := mem_dropRestated_iff.mpr ⟨hp, hkept⟩
      rw [type?_eq_some_of_mem (names_dropRestated hnodup) hp', Option.some_or]
      exact .some p.type.equal_refl
    · rw [Bool.not_eq_false] at hkept
      rw [type?_dropRestated_eq_none hnodup hp hkept, Option.none_or]
      rw [restates_inheritedBy, Bool.and_eq_true] at hkept
      obtain ⟨u, hu, hequal⟩ := (Option.any_eq_true _ _).mp hkept.2
      rw [hu]
      exact .some hequal
  · have hnone : type? d.properties name = none :=
      type?_eq_none_iff.mpr fun p hp hname => hlists ⟨p, hp, hname⟩
    have hnone' : type? (model.dropRestated d).properties name = none :=
      type?_eq_none_iff.mpr fun p hp hname => hlists ⟨p, mem_dropRestated hp, hname⟩
    rw [hnone, hnone', Option.none_or]
    exact .refl _

/-- Dropping restated properties changes nothing of what a declaration offers. -/
theorem offers_dropRestated (hwf : model.WellFormed) (hd : d ∈ model.data) :
    (model.withoutRestated.offers (model.dropRestated d)).Agrees (model.offers d) := by
  refine offers_agrees hwf frame_dropRestated rfl (fun d hd habove => ?_) d hd
  refine Agrees.trans (Agrees.append (habove _ (List.Subset.refl _)) (.refl _)) ?_
  rw [← walkOf_eq_walk hwf.acyclic hd]
  exact agrees_dropRestated (hwf.names d hd)

theorem walk_withoutRestated (hwf : model.WellFormed) (types : List TypeExpr) :
    (model.withoutRestated.walk types).Agrees (model.walk types) :=
  walk_agrees frame_dropRestated rfl fun _ _ _ ha =>
    offers_dropRestated hwf (mem_and_referenced_of_supertype? ha).1

theorem walkOf_dropRestated (hwf : model.WellFormed) (hd : d ∈ model.data) :
    (model.withoutRestated.walkOf (model.dropRestated d)).Agrees (model.walkOf d) := by
  rw [walkOf_eq_walk hwf.withoutRestated.acyclic (List.mem_map_of_mem hd),
    walkOf_eq_walk hwf.acyclic hd]
  exact walk_withoutRestated hwf d.supertypes

end Restated

/-! ## Implemented properties -/

section Implemented

theorem type?_lastOfEachName (properties : List Property) (name : String) :
    type? (lastOfEachName properties) name = type? properties name := by
  induction properties with
  | nil => rfl
  | cons p rest ih =>
    rw [lastOfEachName, ← List.singleton_append (l := rest), type?_append]
    split
    case isTrue hlater =>
      rw [ih]
      cases hrest : type? rest name with
      | some t => rfl
      | none =>
        have hother : p.name ≠ name := by
          rintro rfl
          obtain ⟨q, hq, hname⟩ := List.any_eq_true.mp hlater
          exact type?_eq_none_iff.mp hrest q hq (beq_iff_eq.mp hname)
        rw [Option.none_or, eq_comm, type?_eq_none_iff]
        exact fun q hq => List.mem_singleton.mp hq ▸ hother
    case isFalse =>
      rw [← List.singleton_append, type?_append, ih]

theorem nodup_names_lastOfEachName (properties : List Property) :
    ((lastOfEachName properties).map (·.name)).Nodup := by
  induction properties with
  | nil => exact List.nodup_nil
  | cons p rest ih =>
    rw [lastOfEachName]
    split
    case isTrue => exact ih
    case isFalse hlast =>
      refine List.nodup_cons.mpr ⟨fun hmem => hlast ?_, ih⟩
      obtain ⟨q, hq, hname⟩ := List.mem_map.mp hmem
      exact List.any_eq_true.mpr ⟨q, lastOfEachName_subset rest hq, beq_iff_eq.mpr hname⟩

theorem type?_map_copied (properties : List Property) (name : String) :
    type? (properties.map fun p => { p with own := false }) name = type? properties name := by
  unfold type?
  simp only [List.findRev?_eq_find?_reverse, ← List.map_reverse, List.find?_map,
    Function.comp_def, Option.map_map]

/-- A class copies the names that it neither lists nor inherits from its parent, with the types that
they have in its interfaces. -/
theorem type?_implementedBy (d : DataDeclaration) (name : String) :
    type? (model.implementedBy d) name =
      if type? (model.walk d.parent.toList ++ d.properties) name = none then
        type? (model.walk d.interfaces) name
      else none := by
  have hpresent : ∀ p : Property, decide (p.name ∉ model.presentNames d) = true ↔
      type? (model.walk d.parent.toList ++ d.properties) p.name = none := by
    intro p
    rw [decide_eq_true_eq, notMem_presentNames_iff, type?_inherited, type?_append,
      Option.or_eq_none_iff, ← type?_eq_none_iff]
  unfold implementedBy
  rw [type?_map_copied, type?_lastOfEachName]
  split
  case isTrue hmissing =>
    unfold type?
    simp only [List.findRev?_eq_find?_reverse, ← List.filter_reverse, List.find?_filter]
    congr 2
    funext p
    by_cases hname : p.name = name
    · simp only [(hpresent p).mpr (hname ▸ hmissing), true_and, Bool.decide_eq_true]
    · simp [hname]
  case isFalse hlisted =>
    rw [type?_eq_none_iff]
    rintro p hp rfl
    exact hlisted ((hpresent p).mp (List.mem_filter.mp hp).2)

theorem frame_copyImplemented (d : DataDeclaration) :
    (model.copyImplemented d).frame = d.frame := by
  unfold copyImplemented
  split <;> rfl

theorem properties_copyImplemented {d : DataDeclaration} (hclass : d.isClass = true) :
    (model.copyImplemented d).properties = model.implementedBy d ++ d.properties := by
  rw [copyImplemented_of_isClass hclass]

/-- A copied property has the type that its name has through the interfaces already. -/
theorem agrees_copyImplemented (d : DataDeclaration) :
    Agrees (model.walk d.supertypes ++ (model.copyImplemented d).properties)
      (model.walk d.supertypes ++ d.properties) := by
  by_cases hclass : d.isClass = true
  · rw [properties_copyImplemented hclass]
    refine .of_eq fun name => ?_
    rw [← List.append_assoc, type?_append, @type?_append _ d.properties, type?_append,
      type?_implementedBy, @type?_append _ d.properties]
    split
    case isTrue hmissing =>
      rw [DataDeclaration.supertypes, walk_append, type?_append]
      rw [Option.or_eq_none_iff] at hmissing
      rw [hmissing.1, hmissing.2]
      simp
    case isFalse => rw [Option.none_or]
  · rw [copyImplemented_of_not_isClass hclass]
    exact .refl _

/-- Copying implemented properties changes nothing of what a declaration offers. -/
theorem offers_copyImplemented (hwf : model.WellFormed) {d : DataDeclaration}
    (hd : d ∈ model.data) :
    (model.withImplemented.offers (model.copyImplemented d)).Agrees (model.offers d) := by
  refine offers_agrees hwf frame_copyImplemented rfl (fun d _ habove => ?_) d hd
  refine Agrees.trans (Agrees.append (habove _ (List.Subset.refl _)) (.refl _)) ?_
  exact agrees_copyImplemented d

theorem walk_withImplemented (hwf : model.WellFormed) (types : List TypeExpr) :
    (model.withImplemented.walk types).Agrees (model.walk types) :=
  walk_agrees frame_copyImplemented rfl fun _ _ _ ha =>
    offers_copyImplemented hwf (mem_and_referenced_of_supertype? ha).1

end Implemented

end Model

end Typings
