import Typings.Proofs.Code.Nodes
import Typings.Proofs.Type.Vocabulary

/-!
# Vocabularies of code

Code mentions types and calls functions by name. A vocabulary of code says which types and which
functions these may be.

## Main definitions

* `CodeVocabulary`: what types may be made of, and which functions may be called.
* `Expression.Within`, `StatementsWithin`: the expressions and the code that keep to a vocabulary.
-/

namespace Typings

/-- What the types in code may be made of, and which functions may be called by name. -/
structure CodeVocabulary where
  types : Vocabulary
  callable : String → Prop

/-- Whether an expression may occur, whatever its parts are. -/
structure CodeVocabulary.Admits (voc : CodeVocabulary) (e : Expression) : Prop where
  types : ∀ t ∈ e.ownTypes, t.Within voc.types
  called : ∀ name ∈ e.calledName?, voc.callable name

variable {voc : CodeVocabulary}

namespace Expression

/-- Whether all subexpressions of an expression may occur. -/
def Within (voc : CodeVocabulary) (e : Expression) : Prop :=
  ∀ n ∈ e.nodes, voc.Admits n

/-- An expression keeps to a vocabulary if it does so itself and in its parts. -/
theorem within_iff {e : Expression} :
    e.Within voc ↔ (∀ t ∈ e.ownTypes, t.Within voc.types) ∧
      (∀ name ∈ e.calledName?, voc.callable name) ∧ ∀ p ∈ e.parts, p.Within voc := by
  have hroot : voc.Admits e ↔
      (∀ t ∈ e.ownTypes, t.Within voc.types) ∧ ∀ name ∈ e.calledName?, voc.callable name :=
    ⟨fun h => ⟨h.types, h.called⟩, fun h => ⟨h.1, h.2⟩⟩
  unfold Within
  rw [nodes_eq]
  simp only [List.forall_mem_cons, List.forall_mem_flatMap, hroot, and_assoc]

section Constructors

@[simp] theorem within_identifier {name : String} : (identifier name).Within voc := by
  rw [within_iff]
  unfold parts ownTypes calledName?
  simp

@[simp] theorem within_self : self.Within voc := by
  rw [within_iff]
  unfold parts ownTypes calledName?
  simp

@[simp] theorem within_super : super.Within voc := by
  rw [within_iff]
  unfold parts ownTypes calledName?
  simp

@[simp] theorem within_undefined : undefined.Within voc := by
  rw [within_iff]
  unfold parts ownTypes calledName?
  simp

@[simp] theorem within_text {value : String} : (text value).Within voc := by
  rw [within_iff]
  unfold parts ownTypes calledName?
  simp

@[simp] theorem within_typeName {type : TypeExpr} :
    (typeName type).Within voc ↔ type.Within voc.types := by
  rw [within_iff]
  unfold parts ownTypes calledName?
  simp

@[simp] theorem within_member {owner : Expression} {property : String} :
    (member owner property).Within voc ↔ owner.Within voc := by
  rw [within_iff]
  unfold parts ownTypes calledName?
  simp

variable {args : List Expression}

@[simp] theorem within_call {callee : Expression} {typeArgs : List TypeExpr} :
    (call callee typeArgs args).Within voc ↔
      (∀ t ∈ typeArgs, t.Within voc.types) ∧ (∀ name ∈ callee.name?, voc.callable name) ∧
        callee.Within voc ∧ ∀ a ∈ args, a.Within voc := by
  rw [within_iff]
  unfold parts ownTypes calledName?
  simp

@[simp] theorem within_apply {callee : Expression} :
    (apply callee args).Within voc ↔
      (∀ name ∈ callee.name?, voc.callable name) ∧ callee.Within voc ∧
        ∀ a ∈ args, a.Within voc := by
  rw [apply, within_call]
  simp

@[simp] theorem within_create {type : TypeExpr} :
    (create type args).Within voc ↔ type.Within voc.types ∧ ∀ a ∈ args, a.Within voc := by
  rw [within_iff]
  unfold parts ownTypes calledName?
  simp

@[simp] theorem within_or {left right : Expression} :
    (or left right).Within voc ↔ left.Within voc ∧ right.Within voc := by
  rw [within_iff]
  unfold parts ownTypes calledName?
  simp

@[simp] theorem within_not {inner : Expression} : (not inner).Within voc ↔ inner.Within voc := by
  rw [within_iff]
  unfold parts ownTypes calledName?
  simp

@[simp] theorem within_assign {target value : Expression} :
    (assign target value).Within voc ↔ target.Within voc ∧ value.Within voc := by
  rw [within_iff]
  unfold parts ownTypes calledName?
  simp

@[simp] theorem within_arrow {params : List (String × Option TypeExpr)} {body : Expression} :
    (arrow params body).Within voc ↔
      (∀ t ∈ params.filterMap (·.2), t.Within voc.types) ∧ body.Within voc := by
  rw [within_iff]
  unfold parts ownTypes calledName?
  simp

@[simp] theorem within_object {entries : List (String × Option Expression)} :
    (object entries).Within voc ↔ ∀ e ∈ entries.filterMap (·.2), e.Within voc := by
  rw [within_iff]
  unfold parts ownTypes calledName?
  simp

@[simp] theorem within_template {tag : Expression} {pieces : List TemplatePart} :
    (template tag pieces).Within voc ↔
      (∀ name ∈ tag.name?, voc.callable name) ∧ tag.Within voc ∧
        ∀ e ∈ pieces.filterMap (·.value?), e.Within voc := by
  rw [within_iff]
  unfold parts ownTypes calledName?
  simp

end Constructors

end Expression

/-! ## Statements -/

/-- Whether all expressions of some code may occur. -/
def StatementsWithin (voc : CodeVocabulary) (body : List Statement) : Prop :=
  ∀ e ∈ body.flatMap (·.expressions), e.Within voc

@[simp] theorem statementsWithin_nil : StatementsWithin voc [] := by
  simp [StatementsWithin]

@[simp] theorem statementsWithin_cons {s : Statement} {rest : List Statement} :
    StatementsWithin voc (s :: rest) ↔
      (∀ e ∈ s.expressions, e.Within voc) ∧ StatementsWithin voc rest := by
  simp only [StatementsWithin, List.flatMap_cons, List.forall_mem_append]

@[simp] theorem statementsWithin_append {body rest : List Statement} :
    StatementsWithin voc (body ++ rest) ↔
      StatementsWithin voc body ∧ StatementsWithin voc rest := by
  simp only [StatementsWithin, List.flatMap_append, List.forall_mem_append]

theorem forall_mem_codeNodes {body : List Statement} :
    (∀ n ∈ codeNodes body, voc.Admits n) ↔ StatementsWithin voc body := by
  simp only [codeNodes, StatementsWithin, List.forall_mem_flatMap]
  rfl

def Method.CodeWithin (voc : CodeVocabulary) (m : Method) : Prop :=
  StatementsWithin voc (m.body.getD [])

def DataDeclaration.CodeWithin (voc : CodeVocabulary) (d : DataDeclaration) : Prop :=
  ∀ n ∈ d.codeNodes, voc.Admits n

namespace DataDeclaration

variable {d : DataDeclaration}

theorem codeWithin_iff :
    d.CodeWithin voc ↔ (∀ m ∈ d.methods, m.CodeWithin voc) ∧
      ∀ c ∈ d.ctor, StatementsWithin voc c.body := by
  simp only [CodeWithin, codeNodes, Method.codeNodes, List.forall_mem_append,
    List.forall_mem_flatMap, Method.CodeWithin, ← forall_mem_codeNodes, Option.mem_toList,
    Option.mem_def]

theorem CodeWithin.types (h : d.CodeWithin voc) : ∀ t ∈ d.codeTypes, t.Within voc.types := by
  intro t ht
  obtain ⟨n, hn, ht⟩ := List.mem_flatMap.mp ht
  exact (h n hn).types t ht

theorem CodeWithin.called (h : d.CodeWithin voc) : ∀ name ∈ d.calledNames, voc.callable name := by
  intro name hname
  obtain ⟨n, hn, hname⟩ := List.mem_filterMap.mp hname
  exact (h n hn).called name hname

end DataDeclaration

end Typings
