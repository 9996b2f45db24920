import Mathlib.Order.WellFoundedSet
import Typings.Proofs.Lookup
import Typings.Proofs.Model.Inherited

/-!
# Acyclic hierarchies

The walk through the supertypes of a declaration stops where it would enter a declaration a second
time on one way. In an acyclic hierarchy that never happens, so what is inherited through a list of
supertypes is what each of them offers, one after the other, and properties of declarations follow
by induction from the supertypes down.

## Main definitions

* `Model.Inherits`: the declaration of one symbol refers to another symbol as a supertype.
* `Model.WellFormed`: distinct symbols, distinct names in each declaration, no cycle of supertypes.
* `Model.offers`: the properties of a declaration after the inherited ones.

## Main results

* `Model.WellFormed.induction`: induction from the supertypes of declarations down.
* `Model.walk_eq_flatMap`, `Model.walkOf_eq_walk`: inheriting supertype by supertype.
-/

namespace Typings

namespace Model

variable {model model' : Model}

/-- Whether the declaration of one symbol refers to another symbol as a supertype. -/
def Inherits (model : Model) (s t : Symbol) : Prop :=
  ∃ d ∈ model.data, d.symbol = s ∧ ∃ type ∈ d.supertypes, type.referenced? = some t

/-- Whether no declaration is above itself. -/
def Acyclic (model : Model) : Prop :=
  ∀ s, ¬ Relation.TransGen model.Inherits s s

/-- What the steps on inherited properties may rely on. Supertypes may be missing. -/
structure WellFormed (model : Model) : Prop where
  symbols : (model.data.map (·.symbol)).Nodup
  names : ∀ d ∈ model.data, (d.properties.map (·.name)).Nodup
  acyclic : model.Acyclic

/-! ## Supertypes -/

theorem inherits_of_supertype? {d a : DataDeclaration} {type : TypeExpr} (hd : d ∈ model.data)
    (htype : type ∈ d.supertypes) (ha : model.supertype? type = some a) :
    model.Inherits d.symbol a.symbol :=
  ⟨d, hd, rfl, type, htype, (mem_and_referenced_of_supertype? ha).2⟩

/-- A hierarchy in which supertypes have smaller ranks is acyclic. -/
theorem acyclic_of_rank (rank : Symbol → Nat)
    (h : ∀ d ∈ model.data, ∀ t ∈ d.supertypes.filterMap (·.referenced?), rank t < rank d.symbol) :
    model.Acyclic := by
  have hedge : ∀ s t, model.Inherits s t → rank t < rank s := by
    rintro _ t ⟨d, hd, rfl, type, htype, href⟩
    exact h d hd t (List.mem_filterMap.mpr ⟨type, htype, href⟩)
  have hless : ∀ s t, Relation.TransGen model.Inherits s t → rank t < rank s := by
    intro s t hst
    induction hst with
    | single hst => exact hedge _ _ hst
    | tail _ hst ih => exact (hedge _ _ hst).trans ih
  exact fun s hs => (hless s s hs).false

theorem inherits_congr (h : model'.frames = model.frames) : model'.Inherits = model.Inherits := by
  have hkeep : ∀ {m m' : Model}, m'.frames = m.frames →
      ∀ s t, m'.Inherits s t → m.Inherits s t := by
    rintro m m' h s t ⟨d, hd, rfl, type, htype, href⟩
    obtain ⟨d', hd', hframe⟩ := exists_mem_of_frames h hd
    refine ⟨d', hd', ?_, type, ?_, href⟩
    · rw [← d'.frame_symbol, hframe, d.frame_symbol]
    · rwa [← d'.frame_supertypes, hframe, d.frame_supertypes]
  funext s t
  exact propext ⟨hkeep h s t, hkeep h.symm s t⟩

theorem Acyclic.congr (hacyclic : model.Acyclic) (h : model'.frames = model.frames) :
    model'.Acyclic := by
  unfold Acyclic
  rw [inherits_congr h]
  exact hacyclic

theorem findData?_eq_some (hsymbols : (model.data.map (·.symbol)).Nodup) {d : DataDeclaration}
    (hd : d ∈ model.data) : model.findData? d.symbol = some d :=
  (find?_key_eq_some_iff hsymbols).mpr ⟨hd, rfl⟩

/-- A step that keeps symbols takes the declaration of a symbol to the declaration of that
symbol. -/
theorem findData?_map {f : DataDeclaration → DataDeclaration} (hf : ∀ d, (f d).symbol = d.symbol)
    (hdata : model'.data = model.data.map f) (s : Symbol) :
    model'.findData? s = (model.findData? s).map f := by
  unfold findData?
  rw [hdata, List.find?_map]
  simp only [Function.comp_def, hf]

/-- What holds of a declaration whenever it holds of its supertypes holds of every declaration. -/
theorem WellFormed.induction (h : model.WellFormed) {motive : DataDeclaration → Prop}
    (step : ∀ d ∈ model.data,
      (∀ type ∈ d.supertypes, ∀ a, model.supertype? type = some a → motive a) → motive d) :
    ∀ d ∈ model.data, motive d := by
  let above : Symbol → Symbol → Prop := fun t s => Relation.TransGen model.Inherits s t
  have : IsStrictOrder Symbol above :=
    { irrefl := h.acyclic
      trans := fun _ _ _ hab hbc => hbc.trans hab }
  have hwf : Set.WellFoundedOn {s | s ∈ model.data.map (·.symbol)} above :=
    (List.finite_toSet _).wellFoundedOn
  intro d hd
  refine hwf.induction (List.mem_map_of_mem hd)
    (P := fun s => ∀ d ∈ model.data, d.symbol = s → motive d) ?_ d hd rfl
  rintro _ - ih d hd rfl
  refine step d hd fun type htype a ha => ?_
  have hmem := (mem_and_referenced_of_supertype? ha).1
  exact ih a.symbol (List.mem_map_of_mem hmem) (.single (inherits_of_supertype? hd htype ha)) a hmem
    rfl

/-! ## The walk through supertypes -/

/-- The properties of a declaration after the inherited ones. -/
def offers (model : Model) (d : DataDeclaration) : Walk :=
  model.walkOf d ++ d.properties

/-- What a supertype offers to its subtypes. -/
def offersOf (model : Model) (type : TypeExpr) : Walk :=
  ((model.supertype? type).map model.offers).getD []

/-- What is inherited depends on the declarations only. -/
theorem walk_eq_of_data (hdata : model'.data = model.data) (types : List TypeExpr) :
    model'.walk types = model.walk types := by
  have hsupertype : ∀ t, model'.supertype? t = model.supertype? t := by
    intro t
    unfold supertype? findData?
    rw [hdata]
  unfold walk
  generalize [] = path
  induction path, types using propertiesAbove.induct model with
  | case1 path => rw [propertiesAbove, propertiesAbove]
  | case2 path type rest hnone ih =>
    rw [propertiesAbove, propertiesAbove.eq_2 model, hsupertype, hnone]
    exact ih
  | case3 path type rest d hfound hagain ih =>
    rw [propertiesAbove, propertiesAbove.eq_2 model, hsupertype, hfound]
    simp only [hagain, dif_pos, ih]
  | case4 path type rest d hfound hnew ihabove ih =>
    rw [propertiesAbove, propertiesAbove.eq_2 model, hsupertype, hfound]
    simp only [hnew, dif_neg, not_false_eq_true, ih, ihabove]

theorem walk_eq_flatMap (model : Model) (types : List TypeExpr) :
    model.walk types = types.flatMap model.offersOf := by
  unfold walk
  induction types with
  | nil => rw [propertiesAbove, List.flatMap_nil]
  | cons type rest ih =>
    rw [propertiesAbove, List.flatMap_cons, ← ih, offersOf]
    split
    case h_1 hnone => rw [hnone, Option.map_none, Option.getD_none, List.nil_append]
    case h_2 d hfound =>
      rw [hfound, dif_neg List.not_mem_nil, Option.map_some, Option.getD_some, offers, walkOf]

@[simp] theorem walk_append (model : Model) (types types' : List TypeExpr) :
    model.walk (types ++ types') = model.walk types ++ model.walk types' := by
  simp only [walk_eq_flatMap, List.flatMap_append]

/-- Whether no declaration on the way is at or above one of the given supertypes. -/
def Clear (model : Model) (path : List Symbol) (types : List TypeExpr) : Prop :=
  ∀ s ∈ path, ∀ type ∈ types, ∀ t, type.referenced? = some t →
    ¬ Relation.ReflTransGen model.Inherits t s

theorem Clear.supertypes (hacyclic : model.Acyclic) {path : List Symbol} {types : List TypeExpr}
    {type : TypeExpr} {d : DataDeclaration} (hclear : model.Clear path types) (htype : type ∈ types)
    (hfound : model.supertype? type = some d) : model.Clear (d.symbol :: path) d.supertypes := by
  obtain ⟨hd, href⟩ := mem_and_referenced_of_supertype? hfound
  intro s hs above habove t ht hreach
  have hedge : model.Inherits d.symbol t := ⟨d, hd, rfl, above, habove, ht⟩
  rcases List.mem_cons.mp hs with rfl | hs
  · exact hacyclic _ (.head' hedge hreach)
  · exact hclear s hs type htype d.symbol href (.head hedge hreach)

/-- The way to a declaration makes no difference to what is above it. -/
theorem propertiesAbove_congr (hacyclic : model.Acyclic) {path path' : List Symbol}
    {types : List TypeExpr} (hclear : model.Clear path types) (hclear' : model.Clear path' types) :
    model.propertiesAbove path types = model.propertiesAbove path' types := by
  induction path, types using propertiesAbove.induct model generalizing path' with
  | case1 path => rw [propertiesAbove, propertiesAbove]
  | case2 path type rest hnone ih =>
    have hrest : ∀ {p : List Symbol}, model.Clear p (type :: rest) → model.Clear p rest :=
      fun h s hs u hu => h s hs u (List.mem_cons_of_mem _ hu)
    rw [propertiesAbove, propertiesAbove.eq_2 model path', hnone]
    exact ih (hrest hclear) (hrest hclear')
  | case3 path type rest d hfound hagain =>
    obtain ⟨-, href⟩ := mem_and_referenced_of_supertype? hfound
    exact absurd .refl (hclear d.symbol hagain type List.mem_cons_self d.symbol href)
  | case4 path type rest d hfound hnew ihabove ihrest =>
    have hrest : ∀ {p : List Symbol}, model.Clear p (type :: rest) → model.Clear p rest :=
      fun h s hs u hu => h s hs u (List.mem_cons_of_mem _ hu)
    have hnew' : d.symbol ∉ path' := fun hmem =>
      hclear' d.symbol hmem type List.mem_cons_self d.symbol
        (mem_and_referenced_of_supertype? hfound).2 .refl
    rw [propertiesAbove, propertiesAbove.eq_2 model path', hfound]
    simp only [hnew, hnew', not_false_eq_true, dif_neg]
    rw [ihabove (hclear.supertypes hacyclic List.mem_cons_self hfound)
        (hclear'.supertypes hacyclic List.mem_cons_self hfound),
      ihrest (hrest hclear) (hrest hclear')]

/-- Without cycles a declaration inherits exactly through its supertypes. -/
theorem walkOf_eq_walk (hacyclic : model.Acyclic) {d : DataDeclaration}
    (hd : d ∈ model.data) : model.walkOf d = model.walk d.supertypes := by
  refine propertiesAbove_congr hacyclic ?_ fun s hs => absurd hs List.not_mem_nil
  intro s hs type htype t ht hreach
  rw [List.mem_singleton.mp hs] at hreach
  exact hacyclic _ (.head' ⟨d, hd, rfl, type, htype, ht⟩ hreach)

end Model

end Typings
