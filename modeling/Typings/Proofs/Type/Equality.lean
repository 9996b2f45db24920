import Mathlib.Data.List.Forall2
import Typings.Proofs.Type.Vocabulary

/-!
# Equality of types

Equality compares number literals by value, so the two zeros are the same literal. It is an
equivalence all the same. It looks at the roots of two types and then at their parts, in order.

## Main definitions

* `TypeExpr.sameRoot`: two types agree in all but their parts.
* `TypeExpr.EqualOrAbsent`: two types are equal or both are missing.

## Main results

* `TypeExpr.equal_iff`: equal types have the same root and equal parts.
* `TypeExpr.equal_refl`, `TypeExpr.equal_symm`, `TypeExpr.equal_trans`: equality is an equivalence.
-/

namespace Typings

theorem Binary64.equal_iff {x y : Binary64} :
    x.equal y = true ↔ x.isZero = true ∧ y.isZero = true ∨ x = y := by
  simp [equal]

namespace Literal

theorem equal_symm {a b : Literal} (h : a.equal b = true) : b.equal a = true := by
  cases a <;> cases b <;> simp only [equal, Bool.false_eq_true, beq_iff_eq] at h ⊢
  · exact h.symm
  · rw [Binary64.equal_iff] at h ⊢
    rcases h with ⟨hx, hy⟩ | rfl
    · exact .inl ⟨hy, hx⟩
    · exact .inr rfl
  · exact h.symm

theorem equal_trans {a b c : Literal} (hab : a.equal b = true) (hbc : b.equal c = true) :
    a.equal c = true := by
  cases a <;> cases b <;> simp only [equal, Bool.false_eq_true, beq_iff_eq] at hab <;>
    cases c <;> simp only [equal, Bool.false_eq_true, beq_iff_eq] at hbc ⊢
  · exact hab.trans hbc
  · rw [Binary64.equal_iff] at hab hbc ⊢
    rcases hab with ⟨hx, hy⟩ | rfl
    · rcases hbc with ⟨-, hz⟩ | rfl
      · exact .inl ⟨hx, hz⟩
      · exact .inl ⟨hx, hy⟩
    · exact hbc
  · exact hab.trans hbc

end Literal

namespace TypeExpr

/-- Whether two types agree in all but their parts. -/
def sameRoot : TypeExpr → TypeExpr → Bool
  | reference s _, reference t _ => s == t
  | union _, union _ | intersection _, intersection _ | optional _, optional _ | array _, array _
  | indexed _ _, indexed _ _ | any, any => true
  | shape fs, shape gs => fs.map (·.1) == gs.map (·.1)
  | function ps _, function qs _ => ps.map (·.1) == qs.map (·.1)
  | literal a, literal b => a.equal b
  | var a, var b => a == b
  | primitive a, primitive b => a == b
  | verbatim a, verbatim b => a == b
  | _, _ => false

theorem sameRoot_refl (t : TypeExpr) : t.sameRoot t = true := by
  cases t <;> simp [sameRoot]

variable {t u : TypeExpr}

theorem sameRoot_symm (h : t.sameRoot u = true) : u.sameRoot t = true := by
  cases t <;> cases u <;> simp only [sameRoot, Bool.false_eq_true, beq_iff_eq] at h ⊢
  case literal.literal => exact Literal.equal_symm h
  all_goals exact h.symm

theorem sameRoot_trans {v : TypeExpr} (htu : t.sameRoot u = true) (huv : u.sameRoot v = true) :
    t.sameRoot v = true := by
  cases t <;> cases u <;> simp only [sameRoot, Bool.false_eq_true, beq_iff_eq] at htu <;>
    cases v <;> simp only [sameRoot, Bool.false_eq_true, beq_iff_eq] at huv ⊢
  case literal.literal.literal => exact Literal.equal_trans htu huv
  all_goals exact htu.trans huv

theorem equalAll_iff {as bs : List TypeExpr} :
    equalAll as bs = true ↔ List.Forall₂ (fun a b => a.equal b = true) as bs := by
  induction as generalizing bs with
  | nil => cases bs <;> simp [equalAll]
  | cons a as ih => cases bs <;> simp [equalAll, ih]

theorem equalFields_iff {fs gs : List (String × TypeExpr)} :
    equalFields fs gs = true ↔ fs.map (·.1) = gs.map (·.1) ∧
      List.Forall₂ (fun a b => a.equal b = true) (fs.map (·.2)) (gs.map (·.2)) := by
  induction fs generalizing gs with
  | nil => cases gs <;> simp [equalFields]
  | cons f fs ih =>
    cases gs with
    | nil => simp [equalFields]
    | cons g gs =>
      simp only [equalFields, Bool.and_eq_true, beq_iff_eq, ih, List.map_cons, List.cons.injEq,
        List.forall₂_cons]
      tauto

/-- Equal types have the same root and equal parts. -/
theorem equal_iff :
    t.equal u = true ↔
      t.sameRoot u = true ∧ List.Forall₂ (fun a b => a.equal b = true) t.parts u.parts := by
  cases t <;> cases u <;>
    simp only [equal, sameRoot, parts, equalAll_iff, equalFields_iff, Bool.false_eq_true, false_and,
      Bool.and_eq_true, beq_iff_eq, true_and, List.forall₂_cons, List.Forall₂.nil, and_true]
  case function.function ps r qs s =>
    rw [and_assoc]
    refine and_congr_right fun _ => ?_
    constructor
    · rintro ⟨hparams, hresult⟩
      exact List.rel_append hparams (.cons hresult .nil)
    · intro hparts
      have hback := List.forall₂_reverse_iff.mpr hparts
      simp only [List.reverse_append, List.reverse_singleton, List.singleton_append,
        List.forall₂_cons, List.forall₂_reverse_iff] at hback
      exact ⟨hback.2, hback.1⟩

theorem equal_refl (t : TypeExpr) : t.equal t = true := by
  induction t using partsInduction with
  | step t ih => exact equal_iff.mpr ⟨t.sameRoot_refl, List.forall₂_same.mpr ih⟩

theorem equal_symm (h : t.equal u = true) : u.equal t = true := by
  induction t using partsInduction generalizing u with
  | step t ih =>
    obtain ⟨hroot, hparts⟩ := equal_iff.mp h
    refine equal_iff.mpr ⟨sameRoot_symm hroot, List.Forall₂.flip ?_⟩
    refine List.forall₂_iff_zip.mpr ⟨(List.forall₂_iff_zip.mp hparts).1, fun hp => ?_⟩
    exact ih _ (List.of_mem_zip hp).1 ((List.forall₂_iff_zip.mp hparts).2 hp)

theorem equal_trans {v : TypeExpr} (htu : t.equal u = true) (huv : u.equal v = true) :
    t.equal v = true := by
  induction t using partsInduction generalizing u v with
  | step t ih =>
    obtain ⟨hroot, hparts⟩ := equal_iff.mp htu
    obtain ⟨hroot', hparts'⟩ := equal_iff.mp huv
    refine equal_iff.mpr ⟨sameRoot_trans hroot hroot', ?_⟩
    generalize t.parts = as at ih hparts
    generalize u.parts = bs at hparts hparts'
    generalize v.parts = cs at hparts'
    induction hparts generalizing cs with
    | nil => exact hparts'
    | cons hab _ ihrest =>
      cases hparts' with
      | cons hbc hrest =>
        obtain ⟨hfirst, hothers⟩ := List.forall_mem_cons.mp ih
        exact .cons (hfirst hab hbc) (ihrest hothers _ hrest)

/-! ## Types that may be missing -/

/-- Whether two types are equal or both are missing. -/
def EqualOrAbsent (s t : Option TypeExpr) : Prop :=
  Option.Rel (fun t u => t.equal u = true) s t

namespace EqualOrAbsent

variable {r s t u : Option TypeExpr}

theorem refl (t : Option TypeExpr) : EqualOrAbsent t t := by
  cases t with
  | none => exact .none
  | some t => exact .some t.equal_refl

theorem trans (h : EqualOrAbsent s t) (h' : EqualOrAbsent t u) : EqualOrAbsent s u := by
  cases h with
  | none => exact h'
  | some hst =>
    cases h' with
    | some htu => exact .some (equal_trans hst htu)

theorem or (hr : EqualOrAbsent r s) (ht : EqualOrAbsent t u) :
    EqualOrAbsent (r.or t) (s.or u) := by
  cases hr with
  | none => exact ht
  | some heq => exact .some heq

theorem eq_none_iff (h : EqualOrAbsent s t) : s = none ↔ t = none := by
  cases h <;> simp

/-- Types that are equal or missing together are equal to a third one together. -/
theorem any_equal (h : EqualOrAbsent s t) (v : TypeExpr) :
    s.any (·.equal v) = t.any (·.equal v) := by
  cases h with
  | none => rfl
  | some heq =>
    rw [Option.any_some, Option.any_some, Bool.eq_iff_iff]
    exact ⟨equal_trans (equal_symm heq), equal_trans heq⟩

end EqualOrAbsent

end TypeExpr

end Typings
