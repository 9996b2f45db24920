import Typings.Emission.TypeText
import Typings.Proofs.Type.Equality

/-!
# Renaming symbols in types

Which symbols stand for which declarations depends on the order in which they were issued.
Everything that is done with types respects a renaming of symbols, and a renamed type is written
like the original one if names are looked up through the renaming.

## Main definitions

* `TypeExpr.rename`: a type with its symbols renamed.
* `TypeExpr.WrittenAlike`: a renamed type is written like the original one.

## Main results

* `TypeExpr.equal_rename`: renaming keeps types apart that are not equal.
* `TypeExpr.rename_transform`: renaming commutes with rebuilding.
* `TypeExpr.text_rename`: how a renamed type is written.
-/

namespace Typings

namespace TypeExpr

def renameRoot (f : Symbol → Symbol) : TypeExpr → TypeExpr
  | reference symbol args => reference (f symbol) args
  | t => t

def rename (f : Symbol → Symbol) : TypeExpr → TypeExpr :=
  transform (renameRoot f)

variable {f g : Symbol → Symbol}

section Constructors

attribute [local simp] transform renameRoot

@[simp] theorem rename_reference (s : Symbol) (args : List TypeExpr) :
    (reference s args).rename f = reference (f s) (args.map (rename f)) := by
  simp [rename]

@[simp] theorem rename_union (members : List TypeExpr) :
    (union members).rename f = union (members.map (rename f)) := by
  simp [rename]

@[simp] theorem rename_intersection (members : List TypeExpr) :
    (intersection members).rename f = intersection (members.map (rename f)) := by
  simp [rename]

@[simp] theorem rename_optional (t : TypeExpr) : (optional t).rename f = optional (t.rename f) := by
  simp [rename]

@[simp] theorem rename_array (t : TypeExpr) : (array t).rename f = array (t.rename f) := by
  simp [rename]

@[simp] theorem rename_indexed (key value : TypeExpr) :
    (indexed key value).rename f = indexed (key.rename f) (value.rename f) := by
  simp [rename]

@[simp] theorem rename_shape (fields : List (String × TypeExpr)) :
    (shape fields).rename f = shape (fields.map fun field => (field.1, field.2.rename f)) := by
  simp [rename]

@[simp] theorem rename_function (params : List (String × TypeExpr)) (result : TypeExpr) :
    (function params result).rename f =
      function (params.map fun param => (param.1, param.2.rename f)) (result.rename f) := by
  simp [rename]

@[simp] theorem rename_literal (value : Literal) : (literal value).rename f = literal value := by
  simp [rename]

@[simp] theorem rename_var (name : String) : (var name).rename f = var name := by
  simp [rename]

@[simp] theorem rename_primitive (kind : Primitive) :
    (primitive kind).rename f = primitive kind := by
  simp [rename]

@[simp] theorem rename_verbatim (text : String) : (verbatim text).rename f = verbatim text := by
  simp [rename]

@[simp] theorem rename_any : any.rename f = any := by
  simp [rename]

@[simp] theorem rename_orAbsent (t : TypeExpr) : t.orAbsent.rename f = (t.rename f).orAbsent := by
  cases t <;> simp [orAbsent, isOptional]

@[simp] theorem rename_stringMap (t : TypeExpr) :
    (stringMap t).rename f = stringMap (t.rename f) := by
  simp [stringMap]

@[simp] theorem rename_literalUnion (values : List String) :
    (literalUnion values).rename f = literalUnion values := by
  unfold literalUnion
  split <;> simp

end Constructors

/-! ## Parts and nodes -/

theorem rename_eq (t : TypeExpr) : t.rename f = (t.mapParts (rename f)).renameRoot f :=
  transform_eq _ t

theorem mapParts_renameRoot (h : TypeExpr → TypeExpr) (t : TypeExpr) :
    (t.renameRoot f).mapParts h = (t.mapParts h).renameRoot f := by
  cases t <;> rfl

@[simp] theorem parts_rename (t : TypeExpr) : (t.rename f).parts = t.parts.map (rename f) := by
  cases t <;> simp [parts]

theorem nodes_rename (t : TypeExpr) : (t.rename f).nodes = t.nodes.map (rename f) := by
  induction t using partsInduction with
  | step t ih =>
    rw [nodes_eq, nodes_eq t, parts_rename, List.flatMap_map, List.map_cons, List.map_flatMap]
    exact congrArg _ (List.flatMap_congr ih)

@[simp] theorem referenced?_rename (t : TypeExpr) :
    (t.rename f).referenced? = t.referenced?.map f := by
  cases t <;> simp [referenced?]

@[simp] theorem bareSymbol?_rename (t : TypeExpr) :
    (t.rename f).bareSymbol? = t.bareSymbol?.map f := by
  cases t with
  | reference s args => cases args <;> simp [bareSymbol?]
  | _ => simp [bareSymbol?]

@[simp] theorem isTemporal_rename (t : TypeExpr) : (t.rename f).isTemporal = t.isTemporal := by
  cases t <;> simp [isTemporal]

@[simp] theorem isOptional_rename (t : TypeExpr) : (t.rename f).isOptional = t.isOptional := by
  cases t <;> simp [isOptional]

@[simp] theorem isFunction_rename (t : TypeExpr) : (t.rename f).isFunction = t.isFunction := by
  cases t <;> simp [isFunction]

/-! ## Laws -/

theorem rename_rename (t : TypeExpr) : (t.rename f).rename g = t.rename (g ∘ f) := by
  induction t using partsInduction with
  | step t ih =>
    have hparts : ∀ p ∈ t.parts, (rename g ∘ rename f) p = p.rename (g ∘ f) := ih
    rw [rename_eq, rename_eq t, rename_eq t, mapParts_renameRoot, mapParts_mapParts,
      mapParts_congr hparts]
    cases t <;> rfl

theorem rename_id (t : TypeExpr) : t.rename id = t := by
  induction t using partsInduction with
  | step t ih =>
    rw [rename_eq, mapParts_congr (k := id) ih]
    cases t <;> simp [mapParts, renameRoot]

theorem rename_surjective (hf : Function.Surjective f) : Function.Surjective (rename f) := by
  intro t
  refine ⟨t.rename (Function.surjInv hf), ?_⟩
  rw [rename_rename, (Function.rightInverse_surjInv hf).comp_eq_id, rename_id]

theorem sameRoot_rename (hf : Function.Injective f) (t u : TypeExpr) :
    (t.rename f).sameRoot (u.rename f) = t.sameRoot u := by
  cases t <;> cases u <;> simp [sameRoot, hf.eq_iff, Function.comp_def]

/-- Renaming neither identifies types nor tells equal ones apart. -/
theorem equal_rename (hf : Function.Injective f) (t u : TypeExpr) :
    (t.rename f).equal (u.rename f) = t.equal u := by
  induction t using partsInduction generalizing u with
  | step t ih =>
    rw [Bool.eq_iff_iff, equal_iff, equal_iff, sameRoot_rename hf, parts_rename, parts_rename,
      List.forall₂_map_left_iff, List.forall₂_map_right_iff]
    refine and_congr_right fun _ => List.forall₂_iff_zip.trans
      (Iff.trans (and_congr_right fun _ => ?_) List.forall₂_iff_zip.symm)
    refine forall_congr' fun p => forall_congr' fun q => forall_congr' fun hpq => ?_
    rw [ih p (List.of_mem_zip hpq).1]

/-- Renaming commutes with rebuilding if it does so at every node. -/
theorem rename_transform {h k : TypeExpr → TypeExpr} (t : TypeExpr)
    (hroot : ∀ n, (h n).rename f = k (n.rename f)) :
    (t.transform h).rename f = (t.rename f).transform k := by
  induction t using partsInduction with
  | step t ih =>
    have hparts : ∀ p ∈ t.parts, (rename f ∘ transform h) p = (transform k ∘ rename f) p := ih
    rw [transform_eq, transform_eq k, hroot, rename_eq, rename_eq t, mapParts_renameRoot,
      mapParts_mapParts, mapParts_mapParts, mapParts_congr hparts]

theorem rename_replaceBare {substitution substitution' : Symbol → Option TypeExpr} (t : TypeExpr)
    (hsub : ∀ s, substitution' (f s) = (substitution s).map (rename f)) :
    (t.replaceBare substitution).rename f = (t.rename f).replaceBare substitution' := by
  refine rename_transform t fun n => ?_
  rw [bareSymbol?_rename]
  cases n.bareSymbol? with
  | none => rfl
  | some s =>
    simp only [Option.bind_some, Option.map_some, hsub]
    cases substitution s <;> rfl

/-! ## Forms of optional types -/

theorem equal_primitive_rename (t : TypeExpr) (kind : Primitive) :
    (primitive kind).equal (t.rename f) = (primitive kind).equal t := by
  cases t <;> simp [equal]

theorem rename_withMembers (t : TypeExpr) (kinds : List Primitive) :
    (t.withMembers kinds).rename f = (t.rename f).withMembers kinds := by
  have hmembers : (t.rename f).members = t.members.map (rename f) := by
    cases t <;> simp [members]
  have hcontains : ∀ (members : List TypeExpr) (kind : Primitive),
      (members.map (rename f)).contains (primitive kind) = members.contains (primitive kind) := by
    intro members kind
    rw [List.contains_eq_any_beq, List.contains_eq_any_beq, List.any_map]
    exact congrArg members.any (funext fun m => equal_primitive_rename m kind)
  rw [withMembers, withMembers, rename_union, hmembers]
  congr 1
  generalize t.members = members
  induction kinds generalizing members with
  | nil => rfl
  | cons kind rest ih =>
    rw [List.foldl_cons, List.foldl_cons, hcontains, ih]
    congr 1
    split <;> simp

theorem rename_optionalForm (form : OptionalForm) (t : TypeExpr) :
    (form.apply t).rename f = form.apply (t.rename f) := by
  cases t with
  | optional inner => cases form <;> simp [OptionalForm.apply, rename_withMembers]
  | _ => simp [OptionalForm.apply]

/-! ## Text -/

section Text

variable (name : Symbol → String)

theorem isLooserThanArray_rename (t : TypeExpr) :
    Emission.isLooserThanArray (t.rename f) = Emission.isLooserThanArray t := by
  cases t <;> simp [Emission.isLooserThanArray]

theorem isLooserThanIntersection_rename (t : TypeExpr) :
    Emission.isLooserThanIntersection (t.rename f) = Emission.isLooserThanIntersection t := by
  cases t <;> simp [Emission.isLooserThanIntersection]

theorem labelled_eq (label : String) {t : TypeExpr} (h : t.isOptional = false) :
    t.labelled name label = label ++ ": " ++ t.text name := by
  cases t with
  | optional inner => cases h
  | _ => rfl

/-- A renamed type is written like the original one with names looked up through the renaming, also
where its mark of absence stands at a label. -/
structure WrittenAlike (f : Symbol → Symbol) (name : Symbol → String) (t : TypeExpr) : Prop where
  text : (t.rename f).text name = t.text (name ∘ f)
  labelled (label : String) : (t.rename f).labelled name label = t.labelled (name ∘ f) label

section Parts

variable {name}

theorem map_text_rename {ts : List TypeExpr} (h : ∀ t ∈ ts, WrittenAlike f name t) :
    (ts.map (rename f)).map (text name) = ts.map (text (name ∘ f)) := by
  rw [List.map_map]
  exact List.map_congr_left fun t ht => (h t ht).text

theorem fieldTexts_rename {fields : List (String × TypeExpr)}
    (h : ∀ t ∈ fields.map (·.2), WrittenAlike f name t) (label : String → String) :
    fieldTexts name label (fields.map fun field => (field.1, field.2.rename f)) =
      fieldTexts (name ∘ f) label fields := by
  rw [fieldTexts_eq_map, fieldTexts_eq_map, List.map_map]
  exact List.map_congr_left fun field hfield => (h field.2 (List.mem_map_of_mem hfield)).labelled _

/-- The text of a type is made of the texts of its parts. -/
theorem text_rename_of_parts {t : TypeExpr} (h : ∀ p ∈ t.parts, WrittenAlike f name p) :
    (t.rename f).text name = t.text (name ∘ f) := by
  cases t with
  | reference s args =>
    cases args with
    | nil => simp [text]
    | cons arg args =>
      have hargs : ∀ p ∈ arg :: args, WrittenAlike f name p := h
      rw [rename_reference, List.map_cons, text, text, texts_eq_map, texts_eq_map, ← List.map_cons,
        map_text_rename hargs]
      rfl
  | union members =>
    rcases members with _ | ⟨first, _ | ⟨second, rest⟩⟩
    · simp [text]
    · simpa [text] using (h first (List.mem_singleton_self _)).text
    · rw [rename_union, List.map_cons, List.map_cons, text, text, unionTexts_eq_map,
        unionTexts_eq_map, ← List.map_cons, ← List.map_cons, List.map_map]
      refine congrArg _ (List.map_congr_left fun p hp => ?_)
      simp only [Function.comp_apply, isFunction_rename, (h p hp).text]
  | intersection members =>
    rcases members with _ | ⟨first, _ | ⟨second, rest⟩⟩
    · simp [text]
    · simpa [text] using (h first (List.mem_singleton_self _)).text
    · rw [rename_intersection, List.map_cons, List.map_cons, text, text, intersectionTexts_eq_map,
        intersectionTexts_eq_map, ← List.map_cons, ← List.map_cons, List.map_map]
      refine congrArg _ (List.map_congr_left fun p hp => ?_)
      simp only [Function.comp_apply, isLooserThanIntersection_rename, (h p hp).text]
  | optional inner =>
    rw [rename_optional, text, text, isFunction_rename, (h inner (List.mem_singleton_self _)).text]
  | array element =>
    rw [rename_array, text, text, isLooserThanArray_rename,
      (h element (List.mem_singleton_self _)).text]
  | indexed key value =>
    rw [rename_indexed, text, text, (h key (by simp [parts])).text,
      (h value (by simp [parts])).text]
  | shape fields =>
    cases fields with
    | nil => simp [text]
    | cons field fields =>
      rw [rename_shape, List.map_cons, text, text, ← fieldTexts_rename h, List.map_cons]
  | function params result =>
    rw [rename_function, text, text, fieldTexts_rename fun p hp => h p (List.mem_append_left _ hp),
      (h result (by simp [parts])).text]
  | _ => simp [text]

theorem labelled_rename_of_parts {t : TypeExpr} (h : ∀ p ∈ t.parts, WrittenAlike f name p)
    (label : String) : (t.rename f).labelled name label = t.labelled (name ∘ f) label := by
  cases hoptional : t.isOptional with
  | false =>
    rw [labelled_eq _ label hoptional,
      labelled_eq name label ((isOptional_rename t).trans hoptional), text_rename_of_parts h]
  | true =>
    cases t with
    | optional inner =>
      rw [rename_optional, labelled, labelled, (h inner (List.mem_singleton_self _)).text]
    | _ => exact absurd hoptional Bool.false_ne_true

end Parts

theorem writtenAlike (t : TypeExpr) : WrittenAlike f name t := by
  induction t using partsInduction with
  | step t ih => exact ⟨text_rename_of_parts ih, labelled_rename_of_parts ih⟩

theorem text_rename (t : TypeExpr) : (t.rename f).text name = t.text (name ∘ f) :=
  (writtenAlike name t).text

theorem labelled_rename (label : String) (t : TypeExpr) :
    (t.rename f).labelled name label = t.labelled (name ∘ f) label :=
  (writtenAlike name t).labelled label

theorem listText_rename (ts : List TypeExpr) :
    listText name (ts.map (rename f)) = listText (name ∘ f) ts := by
  rw [listText, listText, List.map_map]
  exact congrArg _ (List.map_congr_left fun t _ => text_rename name t)

end Text

end TypeExpr

end Typings
