import Mathlib
import Typings.Proofs.Model.Occurrences
import Typings.Proofs.Model.Offered
import Typings.Proofs.Type.Replacement

/-!
# Restated properties and type arguments

A reference to a generic supertype gives its type parameters arguments, and what a declaration
inherits through the reference has these in place of the parameters. Restated properties are found
by comparing types as they are listed, with the variables that happen to stand in them. So a
variable of a declaration may be taken for a variable of the same name further up, and a property is
dropped that is not inherited with its type. This is avoided exactly where every variable of the
type comes back as itself.

## Main definitions

* `Occurrence.instantiated`: a type with the type arguments on the way in place.
* `Occurrence.type`: the type of a property with the type arguments on the way in place.
* `Model.nearest?`: the occurrence that a declaration inherits a name from.

## Main results

* `Occurrence.instantiated_eq_substitute`: the arguments on a way amount to one substitution.
* `Model.instantiated_withoutRestated`: with which type a dropped property is inherited.
-/

namespace Typings

/-- The type with arguments in place of the type parameters that they are given for. Other variables
stay. -/
def TypeExpr.instantiate (arguments : List (String × TypeExpr)) : TypeExpr → TypeExpr :=
  substitute fun v => (arguments.lookup v).getD (.var v)

namespace Occurrence

/-- A type where the property is listed as it is where the way begins: with the arguments of each
reference on the way in place. -/
def instantiated (x : Occurrence) (t : TypeExpr) : TypeExpr :=
  x.arguments.foldl (fun t arguments => t.instantiate arguments) t

/-- The type of the property where the way begins. -/
def type (x : Occurrence) : TypeExpr :=
  x.instantiated x.property.type

/-- What a type variable stands for where the way begins. -/
def value (x : Occurrence) (v : String) : TypeExpr :=
  x.instantiated (.var v)

/-- The arguments on a way amount to one substitution. -/
theorem instantiated_eq_substitute (x : Occurrence) (t : TypeExpr) :
    x.instantiated t = t.substitute x.value := by
  unfold instantiated value instantiated
  generalize x.arguments = way
  induction way generalizing t with
  | nil => exact (TypeExpr.substitute_eq_self fun _ _ => rfl).symm
  | cons arguments way ih =>
    rw [List.foldl_cons, ih, TypeExpr.instantiate, TypeExpr.substitute_substitute]
    congr 1
    funext v
    rw [List.foldl_cons, ih]
    rfl

end Occurrence

namespace Model

open Walk

variable {model : Model} {d d' : DataDeclaration} {p : Property}

/-- The occurrence that a declaration inherits a name from: the last one that the walk meets. -/
def nearest? (model : Model) (d : DataDeclaration) (name : String) : Option Occurrence :=
  (model.occurrencesAbove [d.symbol] d.supertypes).findRev? (·.property.name == name)

/-- The type that is compared with listed ones is that of the nearest occurrence, as it is
listed. -/
theorem type?_inheritedBy_eq (model : Model) (d : DataDeclaration) (name : String) :
    (model.inheritedBy d).type? name = (model.nearest? d name).map (·.property.type) := by
  rw [type?_inheritedBy]
  unfold nearest? walkOf type?
  rw [← map_property_occurrencesAbove, List.findRev?_eq_find?_reverse,
    List.findRev?_eq_find?_reverse, ← List.map_reverse, List.find?_map, Option.map_map]
  rfl

/-- A dropped property restates the nearest occurrence of its name. -/
theorem exists_nearest?_of_restates (h : restates (model.inheritedBy d) p = true) :
    ∃ x, model.nearest? d p.name = some x ∧ x.property.type.equal p.type = true := by
  rw [restates, Bool.and_eq_true, type?_inheritedBy_eq] at h
  obtain ⟨u, hu, hequal⟩ := (Option.any_eq_true _ _).mp h.2
  obtain ⟨x, hx, rfl⟩ := Option.map_eq_some_iff.mp hu
  exact ⟨x, hx, hequal⟩

/-- The nearest occurrence of a dropped property is listed with the type of the property. It is
inherited with this type, in which the type arguments on the way to the occurrence take the place of
the variables. That is the type of the property itself exactly if every variable in it stands for
itself at the end of the way. -/
theorem instantiated_withoutRestated (hsymbols : (model.data.map (·.symbol)).Nodup)
    (hd : d ∈ model.data) (hd' : model.withoutRestated.findData? d.symbol = some d')
    (hp : p ∈ d.properties) (hdropped : p ∉ d'.properties) :
    ∃ x, model.nearest? d p.name = some x ∧ x.property.type.equal p.type = true ∧
      x.type.equal (p.type.substitute x.value) = true ∧
      (x.type.equal p.type = true ↔ ∀ v ∈ p.type.vars, x.value v = .var v) := by
  have hsame : d' = model.dropRestated d := by
    rw [findData?_map (f := model.dropRestated) (fun _ => rfl) rfl,
      findData?_eq_some hsymbols hd] at hd'
    exact (Option.some.inj hd').symm
  have hrestates : restates (model.inheritedBy d) p = true := by
    rw [hsame, mem_dropRestated_iff] at hdropped
    simpa [hp] using hdropped
  obtain ⟨x, hx, hlisted⟩ := exists_nearest?_of_restates hrestates
  have htype : x.type.equal (p.type.substitute x.value) = true := by
    rw [Occurrence.type, Occurrence.instantiated_eq_substitute]
    exact TypeExpr.equal_substitute hlisted
  refine ⟨x, hx, hlisted, htype, ?_⟩
  rw [← TypeExpr.equal_substitute_iff]
  exact ⟨TypeExpr.equal_trans (TypeExpr.equal_symm htype), TypeExpr.equal_trans htype⟩

/-- A generic declaration, one that passes its type parameter on to it under another name, and two
that restate its property. Of these, the first one passes its parameter on as well, the second one
does not. -/
def boxes : Model where
  data :=
    [{ symbol := ⟨0⟩, typeParameters := ["T"]
       properties := [{ name := "value", type := .var "T" }] },
      { symbol := ⟨1⟩, typeParameters := ["U"], parent := some (.reference ⟨0⟩ [.var "U"]) },
      { symbol := ⟨2⟩, typeParameters := ["T"], parent := some (.reference ⟨1⟩ [.var "T"])
        properties := [{ name := "value", type := .var "T" }] },
      { symbol := ⟨3⟩, typeParameters := ["T"], parent := some (.reference ⟨1⟩ [.string])
        properties := [{ name := "value", type := .var "T" }] }]

theorem wellFormed_boxes : boxes.WellFormed where
  symbols := by decide
  names := by decide
  acyclic := acyclic_of_rank Symbol.id (by decide)

theorem instantiated_boxes :
    (boxes.data.map (·.symbol)).Nodup ∧ boxes.data[2] ∈ boxes.data ∧
      boxes.withoutRestated.findData? ⟨2⟩ = some { boxes.data[2] with properties := [] } ∧
      ∃ x, boxes.nearest? boxes.data[2] "value" = some x ∧
        x.property.type.equal (.var "T") = true ∧ x.type.equal (.var "T") = true := by
  have hfound : boxes.withoutRestated.findData? boxes.data[2].symbol =
      some { boxes.data[2] with properties := [] } := by
    cbv
  refine ⟨wellFormed_boxes.symbols, List.getElem_mem _, hfound, ?_⟩
  obtain ⟨x, hx, hlisted, -, hiff⟩ := instantiated_withoutRestated
    (p := { name := "value", type := .var "T" })
    wellFormed_boxes.symbols (List.getElem_mem _) hfound List.mem_cons_self List.not_mem_nil
  have hway : (boxes.nearest? boxes.data[2] "value").map (·.arguments) =
      some [[("T", .var "U")], [("U", .var "T")]] := by
    cbv
  rw [hx, Option.map_some, Option.some.injEq] at hway
  refine ⟨x, hx, hlisted, hiff.mpr fun v hv => ?_⟩
  obtain rfl : v = "T" := by simpa using hv
  unfold Occurrence.value Occurrence.instantiated
  rw [hway]
  cbv

/-- The property that the last declaration restates is dropped, although it is inherited with the
type of texts. -/
theorem not_instantiated_boxes : boxes.WellFormed ∧
    ¬∀ d ∈ boxes.data, ∀ d', boxes.withoutRestated.findData? d.symbol = some d' →
      ∀ p ∈ d.properties, p ∉ d'.properties →
        ∃ x, boxes.nearest? d p.name = some x ∧ x.type.equal p.type = true := by
  refine ⟨wellFormed_boxes, fun h => ?_⟩
  have hfound : boxes.withoutRestated.findData? boxes.data[3].symbol =
      some { boxes.data[3] with properties := [] } := by
    cbv
  obtain ⟨x, hx, hequal⟩ := h boxes.data[3] (List.getElem_mem _) _ hfound
    { name := "value", type := .var "T" } List.mem_cons_self List.not_mem_nil
  have htype : (boxes.nearest? boxes.data[3] "value").map (·.type) = some .string := by
    cbv
  rw [hx, Option.map_some, Option.some.injEq] at htype
  exact absurd (htype ▸ hequal) (by decide +kernel)

end Model

end Typings
