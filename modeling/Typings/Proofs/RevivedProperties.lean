import Mathlib
import Typings.Proofs.InheritedProperties
import Typings.Proofs.Model.Revival

/-!
# Each property is revived once

The function that copies data into an instance leaves to the parent what the parent has, be it
through an interface of the parent. That is sound because classes list the properties of their
interfaces once implemented properties are copied: what a class inherits through an interface stands
in the class itself or in one of the classes above it. So every name that an instance has is
assigned by exactly one of the functions that run one after the other, from the class up.

## Main definitions

* `Statement.assignsTo`, `Statement.callsParent`: what the statements of the function do.
* `DataDeclaration.assignments`: how often the function of a class assigns a name.
* `Model.Chain`: a class is another one or above it through parents only.

## Main results

* `Model.type?_parent_of_type?_offers`: a class lists what it has, or inherits it from its parent.
* `Model.existsUnique_assignment`: one class of a chain assigns a name, and it does so once.
-/

namespace Typings

/-! ## What the function of a class does -/

/-- Whether a statement assigns to a property of the instance. -/
def Statement.assignsTo (name : String) : Statement → Bool
  | .perform (.assign (.member (.identifier object) property) _) =>
    object == "instance" && property == name
  | _ => false

def Statement.callsParent : Statement → Bool
  | .perform (.call (.member .super function) _ _) => function == "fromData"
  | _ => false

namespace DataDeclaration

/-- The code of the function that copies data into an instance, empty if there is none. -/
def reviving (d : DataDeclaration) : List Statement :=
  ((d.methods.find? (·.name == "fromData")).bind (·.body)).getD []

/-- How often that function assigns a name of the instance. -/
def assignments (d : DataDeclaration) (name : String) : Nat :=
  d.reviving.countP (·.assignsTo name)

end DataDeclaration

namespace Model

open Walk
open Relation (ReflTransGen)

variable {model : Model} {d : DataDeclaration} {name : String}

/-- The properties that the function of a class copies itself. -/
def ownCopies (model : Model) (d : DataDeclaration) : List Property :=
  d.properties.filter fun p => ((model.inherited d.parent.toList).type? p.name).isNone

/-- The function of a class is found behind the functions that are made for generic classes and for
unions, which have other names. -/
theorem find?_revivalMethods (model : Model) (d : DataDeclaration) :
    (model.revivalMethods d).find? (·.name == "fromData") = some (model.fromData d) := by
  have hgeneric : (d.fromDataFn.name == "fromData") = false := by rfl
  have hunion : ((model.fromDataUnion d).name == "fromData") = false := by rfl
  have hfound : ((model.fromData d).name == "fromData") = true := by rfl
  unfold revivalMethods
  by_cases hparameters : d.typeParameters.isEmpty = true
  · by_cases halias : d.unionAlias.isSome = true
    · simp [hparameters, halias, hfound]
    · simp [hparameters, halias, hfound]
  · by_cases halias : d.unionAlias.isSome = true
    · simp [hparameters, halias, hfound, hgeneric, hunion]
    · simp [hparameters, halias, hfound, hgeneric]

theorem reviving_eq (model : Model) (d : DataDeclaration) :
    ({ d with methods := model.revivalMethods d } : DataDeclaration).reviving =
      [.returnIfAbsent "data",
        .constant "instance" (.or (.identifier "target") (.create d.selfType []))] ++
      (if d.parent.isSome then
        [.perform (.apply (.member .super "fromData") [.identifier "data", .identifier "instance"])]
      else []) ++
      (model.ownCopies d).map model.copyProperty ++ [.returns (some (.identifier "instance"))] := by
  unfold DataDeclaration.reviving
  rw [find?_revivalMethods]
  rfl

theorem assignsTo_copyProperty (model : Model) (p : Property) :
    (model.copyProperty p).assignsTo name = (p.name == name) := by
  simp [copyProperty, Statement.assignsTo]

/-- A class assigns exactly what it copies itself. -/
theorem assignments_eq (model : Model) (d : DataDeclaration) :
    ({ d with methods := model.revivalMethods d } : DataDeclaration).assignments name =
      (model.ownCopies d).countP (·.name == name) := by
  have hcopies : ((model.ownCopies d).map model.copyProperty).countP (·.assignsTo name) =
      (model.ownCopies d).countP (·.name == name) := by
    rw [List.countP_map]
    exact List.countP_congr fun p _ => by rw [Function.comp, assignsTo_copyProperty]
  unfold DataDeclaration.assignments
  rw [reviving_eq, List.countP_append, List.countP_append, List.countP_append, hcopies]
  split <;> simp [Statement.assignsTo, Statement.returnIfAbsent, Expression.apply]

theorem any_callsParent (model : Model) (hparent : d.parent.isSome = true) :
    ({ d with methods := model.revivalMethods d } : DataDeclaration).reviving.any
      (·.callsParent) = true := by
  rw [reviving_eq, if_pos hparent]
  simp [Statement.callsParent, Expression.apply]

/-! ## Classes list what they implement -/

/-- Copying implemented properties can only break what was well-formed before. -/
theorem WellFormed.of_withImplemented (h : model.withImplemented.WellFormed) :
    model.WellFormed where
  symbols := by
    rw [← symbols_eq_of_frames frames_withImplemented]
    exact h.symbols
  names := by
    intro d hd
    have hnames := h.names _ (List.mem_map_of_mem hd)
    by_cases hclass : d.isClass = true
    · rw [properties_copyImplemented hclass] at hnames
      exact hnames.sublist ((List.sublist_append_right _ _).map _)
    · rwa [copyImplemented_of_not_isClass hclass] at hnames
  acyclic := h.acyclic.congr frames_withImplemented.symm

theorem WellFormed.withImplemented (h : model.WellFormed) : model.withImplemented.WellFormed where
  symbols := by
    rw [symbols_eq_of_frames frames_withImplemented]
    exact h.symbols
  names := by
    intro _ hd'
    obtain ⟨d, hd, rfl⟩ := List.mem_map.mp hd'
    exact names_copyImplemented (h.names d hd)
  acyclic := h.acyclic.congr frames_withImplemented

/-- Whatever a class has, it lists or inherits from its parent. -/
theorem type?_parent_of_type?_offers (h : model.withImplemented.WellFormed)
    (hd : d ∈ model.withImplemented.data) (hclass : d.isClass = true)
    (hname : type? (model.withImplemented.offers d) name ≠ none) :
    type? d.properties name ≠ none ∨
      type? (model.withImplemented.walk d.parent.toList) name ≠ none := by
  have hagrees := walk_withImplemented h.of_withImplemented
  unfold offers at hname
  rw [walkOf_eq_walk h.acyclic hd, DataDeclaration.supertypes, walk_append,
    type?_append, type?_append] at hname
  by_cases hlisted : type? d.properties name = none
  case neg => exact .inl hlisted
  by_cases hparent : type? (model.withImplemented.walk d.parent.toList) name = none
  case neg => exact .inr hparent
  exfalso
  rw [hlisted, hparent, Option.none_or, Option.or_none] at hname
  obtain ⟨b, hb, rfl⟩ := List.mem_map.mp hd
  have hframe : (model.copyImplemented b).frame = b.frame := frame_copyImplemented b
  have hclass' : b.isClass = true := by
    rw [← b.frame_isClass, ← hframe, DataDeclaration.frame_isClass, hclass]
  rw [← DataDeclaration.frame_parent, hframe, b.frame_parent] at hparent
  rw [← DataDeclaration.frame_interfaces, hframe, b.frame_interfaces] at hname
  rw [properties_copyImplemented hclass', type?_append, Option.or_eq_none_iff,
    type?_implementedBy, type?_append] at hlisted
  obtain ⟨hlisted, hcopied⟩ := hlisted
  rw [hlisted, Option.none_or, (hagrees _ name).eq_none_iff.mp hparent, if_pos rfl] at hcopied
  exact hname ((hagrees _ name).eq_none_iff.mpr hcopied)

/-! ## The classes that run one after the other -/

def IsParent (model : Model) (d p : DataDeclaration) : Prop :=
  ∃ t ∈ d.parent, model.supertype? t = some p

/-- Whether a declaration is another one or above it through parents only. -/
def Chain (model : Model) : DataDeclaration → DataDeclaration → Prop :=
  ReflTransGen model.IsParent

/-- Whether the parents of classes made of source classes are such classes too. -/
def ParentsDeclared (model : Model) : Prop :=
  ∀ d ∈ model.data, d.isDataClass = true → ∀ t ∈ d.parent,
    ∃ p, model.supertype? t = some p ∧ p.isDataClass = true

def revived (model : Model) (d : DataDeclaration) : DataDeclaration :=
  if d.isDataClass then
    { d with methods := (model.withHelper .copyFunctions).revivalMethods d } else d

theorem data_withRevival (model : Model) :
    model.withRevival.data = model.data.map model.revived := by
  unfold withRevival revived
  simp only [data_withHelper]

theorem frame_revived (d : DataDeclaration) : (model.revived d).frame = d.frame := by
  unfold revived
  split <;> rfl

theorem properties_revived (d : DataDeclaration) :
    (model.revived d).properties = d.properties := by
  unfold revived
  split <;> rfl

theorem parent_revived (d : DataDeclaration) : (model.revived d).parent = d.parent := by
  rw [← DataDeclaration.frame_parent, frame_revived, d.frame_parent]

theorem isDataClass_revived (d : DataDeclaration) :
    (model.revived d).isDataClass = d.isDataClass := by
  unfold revived
  split <;> rfl

theorem supertype?_withRevival (t : TypeExpr) :
    model.withRevival.supertype? t = (model.supertype? t).map model.revived := by
  have hsymbol : ∀ d, (model.revived d).symbol = d.symbol := fun d => by
    rw [← DataDeclaration.frame_symbol, frame_revived, d.frame_symbol]
  unfold supertype?
  simp only [findData?_map hsymbol model.data_withRevival, Option.map_bind, Function.comp_def]

/-- The parent of a revived class is the revived parent. -/
theorem isParent_revived_iff {p' : DataDeclaration} :
    model.withRevival.IsParent (model.revived d) p' ↔
      ∃ p, model.IsParent d p ∧ model.revived p = p' := by
  unfold IsParent
  simp only [parent_revived, supertype?_withRevival, Option.map_eq_some_iff]
  constructor
  · rintro ⟨t, ht, p, hp, rfl⟩
    exact ⟨p, ⟨t, ht, hp⟩, rfl⟩
  · rintro ⟨p, ⟨t, ht, hp⟩, rfl⟩
    exact ⟨t, ht, p, hp, rfl⟩

/-- A step that keeps frames and properties keeps what is inherited. -/
theorem walk_agrees_of_properties {model' : Model} {f : DataDeclaration → DataDeclaration}
    (hwf : model.WellFormed) (hf : ∀ d, (f d).frame = d.frame)
    (hproperties : ∀ d, (f d).properties = d.properties) (hdata : model'.data = model.data.map f)
    (types : List TypeExpr) : (model'.walk types).Agrees (model.walk types) := by
  have hoffers : ∀ d ∈ model.data, (model'.offers (f d)).Agrees (model.offers d) := by
    apply offers_agrees hwf hf hdata
    intro d _ habove
    rw [hproperties]
    exact Agrees.append (habove _ (List.Subset.refl _)) (.refl _)
  apply walk_agrees hf hdata
  intro type _ a ha
  exact hoffers a (mem_and_referenced_of_supertype? ha).1

theorem walk_withRevival (hwf : model.WellFormed) (types : List TypeExpr) :
    (model.withRevival.walk types).Agrees (model.walk types) :=
  walk_agrees_of_properties hwf frame_revived properties_revived model.data_withRevival types

/-! ## Who assigns a name -/

theorem assignments_revived (hclass : d.isDataClass = true) :
    (model.revived d).assignments name =
      (d.properties.filter fun p => ((model.walk d.parent.toList).type? p.name).isNone).countP
        (·.name == name) := by
  unfold revived
  rw [if_pos hclass, assignments_eq, ownCopies]
  simp only [type?_inherited, walk_eq_of_data (data_withHelper model _)]

/-- A class leaves to its parent what the parent has. -/
theorem assignments_of_walk (hclass : d.isDataClass = true)
    (hinherited : type? (model.walk d.parent.toList) name ≠ none) :
    (model.revived d).assignments name = 0 := by
  rw [assignments_revived hclass, List.countP_eq_zero]
  intro p hp hname
  rw [beq_iff_eq] at hname
  have hmissing := (List.mem_filter.mp hp).2
  rw [hname, Option.isNone_iff_eq_none] at hmissing
  exact hinherited hmissing

theorem assignments_of_not_listed (hclass : d.isDataClass = true)
    (hlisted : type? d.properties name = none) : (model.revived d).assignments name = 0 := by
  rw [assignments_revived hclass, List.countP_eq_zero]
  intro p hp hname
  exact type?_eq_none_iff.mp hlisted p (List.mem_filter.mp hp).1 (beq_iff_eq.mp hname)

/-- A class assigns what it lists and does not inherit from its parent, and it does so once. -/
theorem assignments_of_listed (hwf : model.WellFormed) (hd : d ∈ model.data)
    (hclass : d.isDataClass = true) (hlisted : type? d.properties name ≠ none)
    (hinherited : type? (model.walk d.parent.toList) name = none) :
    (model.revived d).assignments name = 1 := by
  have hlisted' : ∃ p ∈ d.properties, p.name = name := by
    by_contra hnone
    exact hlisted (type?_eq_none_iff.mpr fun p hp hname => hnone ⟨p, hp, hname⟩)
  obtain ⟨p, hp, rfl⟩ := hlisted'
  have hmem : p ∈ d.properties.filter fun p =>
      ((model.walk d.parent.toList).type? p.name).isNone :=
    List.mem_filter.mpr ⟨hp, by rw [hinherited, Option.isNone_none]⟩
  rw [assignments_revived hclass]
  have hcount := List.count_eq_one_of_mem
    ((hwf.names d hd).sublist (List.filter_sublist.map (·.name))) (List.mem_map_of_mem hmem)
  rwa [List.count_eq_countP, List.countP_map] at hcount

theorem walk_parent {p : DataDeclaration} {t : TypeExpr} (ht : t ∈ d.parent)
    (hp : model.supertype? t = some p) : model.walk d.parent.toList = model.offers p := by
  rw [Option.mem_def.mp ht, Option.toList_some, walk_eq_flatMap, List.flatMap_singleton, offersOf,
    hp, Option.map_some, Option.getD_some]

variable {a : DataDeclaration}

/-- What a class above lists is offered by every class below it. -/
theorem type?_offers_of_chain (hwf : model.WellFormed) (hd : d ∈ model.data)
    (hchain : model.Chain d a) (hlisted : type? a.properties name ≠ none) :
    type? (model.offers d) name ≠ none := by
  induction hchain using ReflTransGen.head_induction_on with
  | refl =>
    rw [offers, type?_append]
    exact fun hnone => hlisted (Option.or_eq_none_iff.mp hnone).1
  | @head d p hparent _ ih =>
    obtain ⟨t, ht, hp⟩ := hparent
    have habove := ih (mem_and_referenced_of_supertype? hp).1
    intro hnone
    rw [offers, walkOf_eq_walk hwf.acyclic hd, type?_append] at hnone
    have hinherited := (Option.or_eq_none_iff.mp hnone).2
    rw [DataDeclaration.supertypes, walk_append, type?_append] at hinherited
    have hparent := (Option.or_eq_none_iff.mp hinherited).2
    rw [walk_parent ht hp] at hparent
    exact habove hparent

/-! ## One class of a chain assigns a name -/

/-- A chain of revived classes revives a chain. -/
theorem exists_chain_of_revived {b : DataDeclaration}
    (hchain : model.withRevival.Chain (model.revived d) b) :
    ∃ a, model.Chain d a ∧ model.revived a = b := by
  induction hchain with
  | refl => exact ⟨d, .refl, rfl⟩
  | tail _ hparent ih =>
    obtain ⟨a, ha, rfl⟩ := ih
    obtain ⟨p, hp, rfl⟩ := isParent_revived_iff.mp hparent
    exact ⟨p, ha.tail hp, rfl⟩

/-- The classes above a class are classes of the model. -/
theorem mem_and_isDataClass_of_chain (hparents : model.ParentsDeclared) (hd : d ∈ model.data)
    (hclass : d.isDataClass = true) (hchain : model.Chain d a) :
    a ∈ model.data ∧ a.isDataClass = true := by
  induction hchain with
  | refl => exact ⟨hd, hclass⟩
  | @tail a p _ hparent ih =>
    obtain ⟨t, ht, hp⟩ := hparent
    obtain ⟨p', hp', hclass'⟩ := hparents a ih.1 ih.2 t ht
    rw [hp, Option.some.injEq] at hp'
    subst hp'
    exact ⟨(mem_and_referenced_of_supertype? hp).1, hclass'⟩

/-- Whether one class of the chain of a declaration assigns a name, and does so once. -/
def AssignedOnce (model : Model) (d : DataDeclaration) (name : String) : Prop :=
  ∃ a, model.Chain d a ∧ a.assignments name = 1 ∧
    ∀ b, model.Chain d b → b ≠ a → b.assignments name = 0

/-- A class that leaves a name to its parent has it assigned where the parent has it assigned. -/
theorem AssignedOnce.of_parent {p : DataDeclaration} (hclass : d.isDataClass = true)
    (hparent : model.IsParent d p)
    (hinherited : type? (model.walk d.parent.toList) name ≠ none)
    (honce : model.withRevival.AssignedOnce (model.revived p) name) :
    model.withRevival.AssignedOnce (model.revived d) name := by
  obtain ⟨a, hchain, hone, hothers⟩ := honce
  refine ⟨a, .head (isParent_revived_iff.mpr ⟨p, hparent, rfl⟩) hchain, hone, ?_⟩
  intro b hb hne
  rcases hb.cases_head with rfl | ⟨p', hp', hb⟩
  · exact assignments_of_walk hclass hinherited
  · obtain ⟨q, hq, rfl⟩ := isParent_revived_iff.mp hp'
    have hsame : q = p := by
      obtain ⟨t, ht, hq⟩ := hq
      obtain ⟨u, hu, hp⟩ := hparent
      rw [Option.mem_unique ht hu, hp, Option.some.injEq] at hq
      exact hq.symm
    exact hothers b (hsame ▸ hb) hne

section Once

variable (hwf : model.WellFormed)
include hwf

/-- A class that does not inherit a name that it lists is the only one to assign it: no class above
lists it. -/
theorem AssignedOnce.of_listed (hparents : model.ParentsDeclared) (hd : d ∈ model.data)
    (hclass : d.isDataClass = true) (hlisted : type? d.properties name ≠ none)
    (hinherited : type? (model.walk d.parent.toList) name = none) :
    model.withRevival.AssignedOnce (model.revived d) name := by
  refine ⟨model.revived d, .refl, assignments_of_listed hwf hd hclass hlisted hinherited, ?_⟩
  intro b hb hne
  obtain ⟨a, ha, rfl⟩ := exists_chain_of_revived hb
  have hclass' := (mem_and_isDataClass_of_chain hparents hd hclass ha).2
  apply assignments_of_not_listed hclass'
  by_contra hlisted'
  rcases ha.cases_head with rfl | ⟨p, ⟨t, ht, hp⟩, ha⟩
  · exact hne rfl
  · have hoffered := type?_offers_of_chain hwf (mem_and_referenced_of_supertype? hp).1 ha hlisted'
    rw [walk_parent ht hp] at hinherited
    exact hoffered hinherited

/-- The induction goes from the parent of a class down. Where the class inherits the name, its
parent has it, and has it listed or inherited from its own parent in turn. -/
theorem assignedOnce_revived (hparents : model.ParentsDeclared)
    (hlists : ∀ d ∈ model.data, d.isClass = true → ∀ name, type? (model.offers d) name ≠ none →
      type? d.properties name ≠ none ∨ type? (model.walk d.parent.toList) name ≠ none) :
    ∀ d ∈ model.data, d.isDataClass = true →
      type? d.properties name ≠ none ∨ type? (model.walk d.parent.toList) name ≠ none →
      model.withRevival.AssignedOnce (model.revived d) name := by
  refine hwf.induction ?_
  intro d hd ih hclass hname
  by_cases hinherited : type? (model.walk d.parent.toList) name = none
  · exact .of_listed hwf hparents hd hclass (hname.resolve_right (· hinherited)) hinherited
  · obtain ⟨t, ht⟩ : ∃ t, d.parent = some t := by
      refine Option.ne_none_iff_exists'.mp fun hnone => hinherited ?_
      rw [hnone, Option.toList_none, walk_eq_flatMap, List.flatMap_nil, type?_nil]
    obtain ⟨p, hp, hclass'⟩ := hparents d hd hclass t ht
    refine .of_parent hclass ⟨t, ht, hp⟩ hinherited ?_
    have hmem : t ∈ d.supertypes := by
      rw [DataDeclaration.supertypes, ht]
      simp
    refine ih t hmem p hp hclass' ?_
    apply hlists p (mem_and_referenced_of_supertype? hp).1
    · exact (Bool.and_eq_true_iff.mp hclass').1
    · rwa [walk_parent ht hp] at hinherited

end Once

/-- Every class whose parent is a class of the model calls the function of its parent. -/
theorem callsParent_revived (hclass : d.isDataClass = true) (ha : model.revived d = a)
    (hparent : a.parent.isSome = true) : a.reviving.any (·.callsParent) = true := by
  subst ha
  rw [parent_revived] at hparent
  unfold revived
  rw [if_pos hclass]
  exact any_callsParent _ hparent

/-- Once restated properties are dropped and implemented ones are copied, every name that a class
lists or inherits from its parent is assigned by exactly one class of its chain, once, and every
class of the chain that has a parent calls the function of its parent. -/
theorem existsUnique_assignment (hwf : model.withoutRestated.withImplemented.WellFormed)
    (hparents : model.withoutRestated.withImplemented.ParentsDeclared)
    (hd : d ∈ model.withoutRestated.withImplemented.withRevival.data)
    (hclass : d.isDataClass = true) (hname : name ∈ d.properties.map (·.name) ++
      (model.withoutRestated.withImplemented.withRevival.inherited d.parent.toList).map (·.name)) :
    (∃ a, model.withoutRestated.withImplemented.withRevival.Chain d a ∧ a.assignments name = 1 ∧
      ∀ b, model.withoutRestated.withImplemented.withRevival.Chain d b → b ≠ a →
        b.assignments name = 0) ∧
    ∀ a, model.withoutRestated.withImplemented.withRevival.Chain d a →
      a.isDataClass = true ∧ (a.parent.isSome = true → a.reviving.any (·.callsParent) = true) := by
  rw [data_withRevival] at hd
  obtain ⟨b, hb, rfl⟩ := List.mem_map.mp hd
  rw [isDataClass_revived] at hclass
  constructor
  · refine assignedOnce_revived hwf hparents
      (fun a ha hclass name => type?_parent_of_type?_offers hwf ha hclass) b hb hclass ?_
    rw [properties_revived, parent_revived, List.mem_append, Inherited.mem_names_iff,
      type?_inherited] at hname
    refine hname.imp (fun hlisted hnone => ?_) fun hinherited hnone => hinherited ?_
    · obtain ⟨p, hp, rfl⟩ := List.mem_map.mp hlisted
      exact type?_eq_none_iff.mp hnone p hp rfl
    · exact (walk_withRevival hwf b.parent.toList name).eq_none_iff.mpr hnone
  · intro a ha
    obtain ⟨c, hc, rfl⟩ := exists_chain_of_revived ha
    have hclass' := (mem_and_isDataClass_of_chain hparents hb hclass hc).2
    exact ⟨by rw [isDataClass_revived, hclass'], callsParent_revived hclass' rfl⟩

/-- A class that implements an interface, and one below it that lists again what the interface
has. -/
def shelf : Model where
  data :=
    [{ symbol := ⟨0⟩, properties := [{ name := "id", type := .primitive .number }] },
      { symbol := ⟨1⟩, isClass := true, interfaces := [.reference ⟨0⟩ []],
        properties := [{ name := "title", type := .primitive .string }] },
      { symbol := ⟨2⟩, isClass := true, parent := some (.reference ⟨1⟩ []),
        properties := [{ name := "id", type := .primitive .string, own := true },
          { name := "pages", type := .primitive .number }] }]

theorem wellFormed_shelf : shelf.WellFormed where
  symbols := by decide
  names := by decide
  acyclic := acyclic_of_rank (·.id) (by decide)

theorem parentsDeclared_shelf : shelf.withoutRestated.withImplemented.ParentsDeclared := by
  have hchecked : (shelf.withoutRestated.withImplemented.data.all fun d =>
      d.parent.all fun t => (shelf.withoutRestated.withImplemented.supertype? t).any
        (·.isDataClass)) = true := by cbv
  intro d hd _ t ht
  have hparent := List.all_eq_true.mp hchecked d hd
  rw [Option.mem_def.mp ht, Option.all_some, Option.any_eq_true] at hparent
  exact hparent

theorem existsUnique_assignment_shelf :
    (shelf.withoutRestated.withImplemented.withRevival.data.map fun d =>
      ["id", "title", "pages"].map d.assignments) = [[0, 0, 0], [1, 1, 0], [0, 0, 1]] ∧
    ∃ d ∈ shelf.withoutRestated.withImplemented.withRevival.data, d.symbol = ⟨2⟩ ∧
      ∃ a, shelf.withoutRestated.withImplemented.withRevival.Chain d a ∧ a.assignments "id" = 1 ∧
        ∀ b, shelf.withoutRestated.withImplemented.withRevival.Chain d b → b ≠ a →
          b.assignments "id" = 0 := by
  refine ⟨by cbv, ?_⟩
  obtain ⟨d, hd, hchecked⟩ : ∃ d ∈ shelf.withoutRestated.withImplemented.withRevival.data,
      (d.symbol == ⟨2⟩ && d.isDataClass && d.properties.any (·.name == "id")) = true := by
    rw [← List.any_eq_true]
    cbv
  rw [Bool.and_eq_true, Bool.and_eq_true, beq_iff_eq, List.any_eq_true] at hchecked
  obtain ⟨⟨hsymbol, hclass⟩, p, hp, hname⟩ := hchecked
  have hlisted := List.mem_append_left
    ((shelf.withoutRestated.withImplemented.withRevival.inherited d.parent.toList).map (·.name))
    (List.mem_map_of_mem (f := (·.name)) hp)
  rw [beq_iff_eq.mp hname] at hlisted
  exact ⟨d, hd, hsymbol, (existsUnique_assignment wellFormed_shelf.withoutRestated.withImplemented
    parentsDeclared_shelf hd hclass hlisted).1⟩

end Model

end Typings
