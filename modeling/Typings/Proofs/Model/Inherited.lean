import Mathlib.Data.List.Induction
import Typings.Model.Inherited
import Typings.Proofs.Model.Frame

/-!
# Where inherited properties come from

A walk through supertypes meets properties one after the other. Both collectors make the same walk:
the map of types has for every name the type of the last property that is met, and the copies that
are put in front of a class, from the last one on, are the last properties of their names.

## Main definitions

* `Reaches`: a declaration is at or above one of the given supertypes.
* `Model.Walk`, `Model.walk`, `Model.walkOf`: the properties that a walk meets.
* `Model.lastOfEachName`, `Model.implementedBy`: the properties that a class copies.

## Main results

* `Model.type?_inherited`, `Model.type?_inheritedBy`: the types that are collected.
* `Model.copyImplemented_of_isClass`: the copies that are put in front.
* `Model.exists_reaches_of_mem_walk`: an inherited property belongs to a declaration above.
* `Model.mem_dropRestated`, `Model.mem_copyImplemented`: the properties after each step.
-/

namespace Typings

/-- Whether a declaration is what one of the given types refers to, or is above such a
declaration. -/
inductive Reaches (data : List DataDeclaration) : List TypeExpr → DataDeclaration → Prop where
  | here {types : List TypeExpr} {t : TypeExpr} {d : DataDeclaration} (ht : t ∈ types)
      (hd : d ∈ data) (href : t.referenced? = some d.symbol) : Reaches data types d
  | above {types : List TypeExpr} {t : TypeExpr} {d a : DataDeclaration} (ht : t ∈ types)
      (hd : d ∈ data) (href : t.referenced? = some d.symbol) (ha : Reaches data d.supertypes a) :
      Reaches data types a

namespace Reaches

variable {data data' : List DataDeclaration} {types types' : List TypeExpr} {a : DataDeclaration}

theorem mem (h : Reaches data types a) : a ∈ data := by
  induction h with
  | here _ hd _ => exact hd
  | above _ _ _ _ ih => exact ih

theorem subset (h : Reaches data types a) (hsub : types ⊆ types') : Reaches data types' a := by
  cases h with
  | here ht hd href => exact .here (hsub ht) hd href
  | above ht hd href ha => exact .above (hsub ht) hd href ha

/-- Related declarations lead to each other in the same way if they have the same frames. -/
theorem of_related {R : DataDeclaration → DataDeclaration → Prop}
    (hframe : ∀ d d', R d d' → d'.frame = d.frame) (hrelated : ∀ d ∈ data, ∃ d' ∈ data', R d d')
    (h : Reaches data types a) : ∃ a', R a a' ∧ Reaches data' types a' := by
  have hsymbol : ∀ {d d' : DataDeclaration}, R d d' → d.symbol = d'.symbol := by
    intro d d' hrel
    rw [← d.frame_symbol, ← hframe d d' hrel, d'.frame_symbol]
  induction h with
  | here ht hd href =>
    obtain ⟨d', hd', hrel⟩ := hrelated _ hd
    rw [hsymbol hrel] at href
    exact ⟨d', hrel, .here ht hd' href⟩
  | above ht hd href _ ih =>
    obtain ⟨d', hd', hrel⟩ := hrelated _ hd
    obtain ⟨a', hrela, hreach⟩ := ih
    rw [hsymbol hrel] at href
    rw [← DataDeclaration.frame_supertypes, ← hframe _ _ hrel, DataDeclaration.frame_supertypes]
      at hreach
    exact ⟨a', hrela, .above ht hd' href hreach⟩

end Reaches

namespace Model

variable {model : Model} {d : DataDeclaration} {p : Property}

theorem mem_and_referenced_of_supertype? {t : TypeExpr} (h : model.supertype? t = some d) :
    d ∈ model.data ∧ t.referenced? = some d.symbol := by
  obtain ⟨symbol, href, hfound⟩ := Option.bind_eq_some_iff.mp h
  have hsymbol : d.symbol = symbol := by simpa using List.find?_some hfound
  exact ⟨List.mem_of_find?_eq_some hfound, hsymbol ▸ href⟩

/-! ## What a walk meets -/

/-- The properties that a walk through supertypes meets, in order. -/
abbrev Walk := List Property

namespace Walk

variable {xs ys : Walk} {name : String}

/-- The type of the last property of a name. -/
def type? (walk : Walk) (name : String) : Option TypeExpr :=
  (walk.findRev? (·.name == name)).map (·.type)

@[simp] theorem type?_nil : type? [] name = none := rfl

@[simp] theorem type?_append :
    type? (xs ++ ys) name = (type? ys name).or (type? xs name) := by
  unfold type?
  rw [List.findRev?_eq_find?_reverse, List.findRev?_eq_find?_reverse,
    List.findRev?_eq_find?_reverse, List.reverse_append, List.find?_append, Option.map_or]

theorem type?_cons (p : Property) (xs : Walk) (name : String) :
    type? (p :: xs) name = (type? xs name).or (if name = p.name then some p.type else none) := by
  rw [← List.singleton_append, type?_append]
  by_cases h : name = p.name
  · simp [type?, List.findRev?, h]
  · simp [type?, List.findRev?, h, Ne.symm h]

theorem type?_eq_none_iff : type? xs name = none ↔ ∀ p ∈ xs, p.name ≠ name := by
  simp [type?, List.findRev?_eq_find?_reverse]

end Walk

/-- What a walk through the given supertypes meets. -/
def walk (model : Model) (supertypes : List TypeExpr) : Walk :=
  model.propertiesAbove [] supertypes

/-- What a walk through the supertypes of a declaration meets. -/
def walkOf (model : Model) (d : DataDeclaration) : Walk :=
  model.propertiesAbove [d.symbol] d.supertypes

/-! ## Collected types -/

theorem Inherited.type?_insert (inherited : Inherited) (name key : String) (type : TypeExpr) :
    (inherited.insert name type).type? key =
      if key = name then some type else inherited.type? key := by
  unfold type?
  induction inherited with
  | nil => grind [insert]
  | cons entry rest ih => grind [insert]

theorem Inherited.type?_insertAll (properties : List Property) (inherited : Inherited)
    (name : String) : (inherited.insertAll properties).type? name =
      (Walk.type? properties name).or (inherited.type? name) := by
  induction properties generalizing inherited with
  | nil => rfl
  | cons p rest ih =>
    rw [insertAll, List.foldl_cons, ← insertAll, ih, type?_insert, Walk.type?_cons, Option.or_assoc]
    split <;> rfl

/-- The collected type of a name is that of the last property that is met, if there is one. -/
theorem type?_collectTypes (path : List Symbol) (collected : Inherited) (types : List TypeExpr)
    (name : String) : (model.collectTypes path collected types).type? name =
      (Walk.type? (model.propertiesAbove path types) name).or (collected.type? name) := by
  induction path, collected, types using collectTypes.induct model with
  | case1 path collected => rw [collectTypes, propertiesAbove, Walk.type?_nil, Option.none_or]
  | case2 path collected type rest hnone ih =>
    rw [collectTypes, propertiesAbove, hnone]
    exact ih
  | case3 path collected type rest d hfound hagain ih =>
    rw [collectTypes, propertiesAbove, hfound]
    simp only [hagain, dif_pos, ih]
  | case4 path collected type rest d hfound hnew above ihabove ihrest =>
    rw [collectTypes, propertiesAbove, hfound]
    simp only [hnew, not_false_eq_true, dif_neg]
    rw [ihrest, Inherited.type?_insertAll, ihabove, Walk.type?_append, Walk.type?_append,
      Option.or_assoc, Option.or_assoc]

theorem type?_inherited (model : Model) (types : List TypeExpr) (name : String) :
    (model.inherited types).type? name = (model.walk types).type? name := by
  rw [inherited, type?_collectTypes]
  exact Option.or_none

theorem type?_inheritedBy (model : Model) (d : DataDeclaration) (name : String) :
    (model.inheritedBy d).type? name = (model.walkOf d).type? name := by
  rw [inheritedBy, type?_collectTypes]
  exact Option.or_none

theorem Inherited.mem_names_iff {inherited : Inherited} {name : String} :
    name ∈ inherited.map (·.name) ↔ inherited.type? name ≠ none := by
  simp [type?]

/-! ## Copies -/

/-- Of several properties with one name only the last, where it stands. -/
def lastOfEachName : List Property → List Property
  | [] => []
  | p :: rest =>
    if rest.any (·.name == p.name) then lastOfEachName rest else p :: lastOfEachName rest

/-- The properties that a class has to copy from its interfaces: those of names that it neither
lists nor inherits from its parent. -/
def implementedBy (model : Model) (d : DataDeclaration) : List Property :=
  let missing := (model.walk d.interfaces).filter fun p => p.name ∉ model.presentNames d
  (lastOfEachName missing).map fun p => { p with own := false }

theorem notMem_presentNames_iff {name : String} :
    name ∉ model.presentNames d ↔
      (∀ p ∈ d.properties, p.name ≠ name) ∧
        (model.inherited d.parent.toList).type? name = none := by
  rw [presentNames, List.mem_append, not_or, Inherited.mem_names_iff, not_not, List.mem_map]
  simp only [not_exists, not_and, ne_eq]

/-- The last property of a list takes the place of all earlier ones of its name. -/
theorem lastOfEachName_concat (properties : List Property) (p : Property) :
    lastOfEachName (properties ++ [p]) =
      lastOfEachName (properties.filter fun q => q.name ≠ p.name) ++ [p] := by
  induction properties with
  | nil => rfl
  | cons q rest ih =>
    rw [List.cons_append, lastOfEachName, ih, List.any_append, List.filter_cons]
    by_cases hname : q.name = p.name
    · simp [hname]
    · have hany : (rest.filter fun r => r.name ≠ p.name).any (·.name == q.name) =
          rest.any (·.name == q.name) := by
        rw [List.any_filter]
        refine congrArg rest.any (funext fun r => ?_)
        by_cases hr : r.name = q.name <;> simp [hr, hname]
      simp only [ne_eq, hname, not_false_eq_true, decide_true, if_true, lastOfEachName, hany,
        List.any_cons, List.any_nil, Bool.or_false, beq_eq_false_iff_ne.mpr (Ne.symm hname)]
      split <;> rfl

/-- What is put in front, from the last property on, are the last properties of the names that are
not present. -/
theorem putInFront_reverse (present : List String) (listed properties : List Property) :
    putInFront present listed properties.reverse =
      (lastOfEachName (properties.filter fun p => p.name ∉ present)).map
        (fun p => { p with own := false }) ++ listed := by
  induction properties using List.reverseRecOn generalizing present listed with
  | nil => rfl
  | append_singleton properties p ih =>
    rw [List.reverse_concat, putInFront, ih, ih, List.filter_append]
    split
    case isTrue hpresent => simp [hpresent]
    case isFalse hmissing =>
      have hrest : (properties.filter fun q => q.name ∉ p.name :: present) =
          (properties.filter fun q => q.name ∉ present).filter fun q => q.name ≠ p.name := by
        rw [List.filter_filter]
        refine congrArg (properties.filter ·) (funext fun q => ?_)
        simp [not_or]
      rw [List.filter_singleton, decide_eq_true hmissing, cond_true, lastOfEachName_concat, hrest,
        List.map_append, List.append_assoc]
      rfl

theorem copyImplemented_of_isClass (hclass : d.isClass = true) :
    model.copyImplemented d = { d with properties := model.implementedBy d ++ d.properties } := by
  rw [copyImplemented, if_pos hclass]
  dsimp only
  rw [putInFront_reverse]
  rfl

theorem copyImplemented_of_not_isClass (hclass : d.isClass ≠ true) : model.copyImplemented d = d :=
  if_neg hclass

/-! ## The declarations above -/

theorem exists_reaches_of_mem_propertiesAbove {path : List Symbol} {types : List TypeExpr}
    (h : p ∈ model.propertiesAbove path types) :
    ∃ a, Reaches model.data types a ∧ p ∈ a.properties := by
  induction path, types using propertiesAbove.induct model with
  | case1 path =>
    rw [propertiesAbove] at h
    exact absurd h List.not_mem_nil
  | case2 path t rest hnone ih =>
    rw [propertiesAbove, hnone] at h
    obtain ⟨a, ha, hp⟩ := ih h
    exact ⟨a, ha.subset (List.subset_cons_self t rest), hp⟩
  | case3 path t rest d hfound hagain ih =>
    rw [propertiesAbove, hfound] at h
    simp only [hagain, dif_pos] at h
    obtain ⟨a, ha, hp⟩ := ih h
    exact ⟨a, ha.subset (List.subset_cons_self t rest), hp⟩
  | case4 path t rest d hfound hnew ihabove ihrest =>
    rw [propertiesAbove, hfound] at h
    simp only [hnew, not_false_eq_true, dif_neg, List.mem_append] at h
    obtain ⟨hd, href⟩ := mem_and_referenced_of_supertype? hfound
    rcases h with (h | h) | h
    · obtain ⟨a, ha, hp⟩ := ihabove h
      exact ⟨a, .above List.mem_cons_self hd href ha, hp⟩
    · exact ⟨d, .here List.mem_cons_self hd href, h⟩
    · obtain ⟨a, ha, hp⟩ := ihrest h
      exact ⟨a, ha.subset (List.subset_cons_self t rest), hp⟩

/-- An inherited property belongs to a declaration above. -/
theorem exists_reaches_of_mem_walk {types : List TypeExpr} (h : p ∈ model.walk types) :
    ∃ a, Reaches model.data types a ∧ p ∈ a.properties :=
  exists_reaches_of_mem_propertiesAbove h

/-! ## Restated properties -/

theorem mem_dropRestated {d : DataDeclaration} {p : Property}
    (h : p ∈ (model.dropRestated d).properties) : p ∈ d.properties :=
  List.mem_of_mem_filter h

@[simp] theorem frames_withoutRestated : model.withoutRestated.frames = model.frames :=
  frames_map fun _ => rfl

/-! ## Implemented properties -/

theorem lastOfEachName_subset (properties : List Property) :
    lastOfEachName properties ⊆ properties := by
  induction properties with
  | nil => exact List.Subset.refl _
  | cons p rest ih =>
    rw [lastOfEachName]
    split
    · exact List.subset_cons_of_subset p ih
    · exact List.cons_subset_cons p ih

/-- A property of a class is its own or has the type of a property above one of its interfaces. -/
theorem mem_copyImplemented (h : p ∈ (model.copyImplemented d).properties) :
    p ∈ d.properties ∨ d.isClass = true ∧
      ∃ a q, Reaches model.data d.interfaces a ∧ q ∈ a.properties ∧ p.type = q.type := by
  by_cases hclass : d.isClass = true
  · rw [copyImplemented_of_isClass hclass] at h
    rcases List.mem_append.mp h with h | h
    · obtain ⟨q, hq, rfl⟩ := List.mem_map.mp h
      have hmissing := List.mem_of_mem_filter (lastOfEachName_subset _ hq)
      obtain ⟨a, ha, hp⟩ := exists_reaches_of_mem_walk hmissing
      exact .inr ⟨hclass, a, q, ha, hp, rfl⟩
    · exact .inl h
  · rw [copyImplemented_of_not_isClass hclass] at h
    exact .inl h

/-! ## Both steps -/

/-- What the two steps make of a declaration: it keeps all but its properties, and these have types
of its own properties or of properties above one of its interfaces. -/
structure Reconciles (model : Model) (d d' : DataDeclaration) : Prop where
  frame : d'.frame = d.frame
  methods : d'.methods = d.methods
  ctor : d'.ctor = d.ctor
  unionAlias : d'.unionAlias = d.unionAlias
  properties : ∀ p ∈ d'.properties, ∃ q, p.type = q.type ∧
    (q ∈ d.properties ∨
      d.isClass = true ∧ ∃ a, Reaches model.data d.interfaces a ∧ q ∈ a.properties)

theorem exists_reconciles {d' : DataDeclaration}
    (h : d' ∈ model.withoutRestated.withImplemented.data) :
    ∃ d ∈ model.data, model.Reconciles d d' := by
  obtain ⟨_, hrestated, rfl⟩ := List.mem_map.mp h
  obtain ⟨d, hd, rfl⟩ := List.mem_map.mp hrestated
  have hkeep : ∀ (model : Model) (d : DataDeclaration), (model.copyImplemented d).frame = d.frame ∧
      (model.copyImplemented d).methods = d.methods ∧ (model.copyImplemented d).ctor = d.ctor ∧
      (model.copyImplemented d).unionAlias = d.unionAlias := by
    intro model d
    unfold copyImplemented
    split <;> exact ⟨rfl, rfl, rfl, rfl⟩
  obtain ⟨hframe, hmethods, hctor, hunion⟩ := hkeep model.withoutRestated (model.dropRestated d)
  refine ⟨d, hd, hframe, hmethods, hctor, hunion, fun p hp => ?_⟩
  rcases mem_copyImplemented hp with hp | ⟨hclass, a, q, hreach, hq, htype⟩
  · exact ⟨p, rfl, .inl (mem_dropRestated hp)⟩
  · have hrelated : ∀ a ∈ model.withoutRestated.data,
        ∃ a' ∈ model.data, model.dropRestated a' = a :=
      fun _ ha => List.mem_map.mp ha
    obtain ⟨a', heq, hreach'⟩ := hreach.of_related (by rintro _ _ rfl; rfl) hrelated
    exact ⟨q, htype, .inr ⟨hclass, a', hreach', mem_dropRestated (heq ▸ hq)⟩⟩

@[simp] theorem frames_withImplemented : model.withImplemented.frames = model.frames :=
  frames_map fun d => by
    unfold copyImplemented
    split <;> rfl

end Model

end Typings
