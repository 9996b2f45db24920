import Mathlib.Data.List.Forall2
import Typings.Emission.Document

/-!
# Lines of a declaration

A declaration starts with its comments and a line with its keyword and the name that it declares.
The members stand one level deeper, each with a line that starts with its name, and no other line of
the declaration stands at its own level but a closing brace. So the lines declare one name, and the
members under it are those of the declaration.

## Main definitions

* `Declaration.memberHeads`: what the lines of the members start with.
* `Encloses`: lines one level deeper that hold the lines of given members, in order.
* `Declares`: lines that declare a name.

## Main results

* `declares_declaration`: what is written of a declaration declares its name.
-/

namespace Typings

open Emission

/-- What the lines of the members start with: their modifiers and names. -/
def Declaration.memberHeads : Declaration → List String
  | ofData d =>
    d.properties.map (fun p => p.modifiers.text ++ propertyName p.name) ++
      ((if d.isClass then d.ctor.toList.map fun _ => "constructor(" else []) ++
        d.methods.map fun m => m.modifiers.text ++ propertyName m.name)
  | ofAlias _ => []
  | ofEnum e => e.members.map fun m => propertyName m.name

namespace Emission

def indentation (indent : String) (level : Nat) : String :=
  String.join (List.replicate level indent)

def IsComment (margin : String) (lines : List String) : Prop :=
  ∀ line ∈ lines, line = margin ++ "/**" ∨ ∃ text, line = margin ++ (" *" ++ text)

/-- Lines behind a margin, or empty, some of which start with the given texts in the given order. -/
inductive Encloses (margin : String) : List String → List String → Prop where
  | nil : Encloses margin [] []
  | empty {heads lines : List String} : Encloses margin heads lines →
      Encloses margin heads ("" :: lines)
  | other {heads lines : List String} (text : String) :
    Encloses margin heads lines → Encloses margin heads ((margin ++ text) :: lines)
  | member {heads lines : List String} (head rest : String) :
    Encloses margin heads lines →
      Encloses margin (head :: heads) ((margin ++ (head ++ rest)) :: lines)

/-- Lines at a level that declare a name, with an empty line at the end. Other declarations are
referred to by the given names. -/
inductive Declares (indent : String) (reference : Symbol → String) (level : Nat) (exported : Bool)
    (name : String) : Declaration → List String → Prop where
  | ofData {d : DataDeclaration} {comments inside : List String} (supertypes : String) :
    IsComment (indentation indent level) comments →
    Encloses (indentation indent (level + 1)) (Declaration.ofData d).memberHeads inside →
    Declares indent reference level exported name (.ofData d)
      (comments ++ (indentation indent level ++ (exportText exported ++
          (if d.isClass then "class " else "interface ") ++ name ++
            typeParameterList d.typeParameters ++
          supertypes ++ " \x7b")) ::
        inside ++ [indentation indent level ++ "\x7d", ""])
  | ofAlias {a : AliasDeclaration} {comments : List String} :
    IsComment (indentation indent level) comments →
    Declares indent reference level exported name (.ofAlias a)
      (comments ++ [indentation indent level ++ (exportText exported ++ "type " ++ name ++
        typeParameterList a.typeParameters ++ " = " ++ a.definition.text reference ++ ";"), ""])
  | ofEnum {e : EnumDeclaration} {comments inside : List String} :
    IsComment (indentation indent level) comments →
    Encloses (indentation indent (level + 1)) (Declaration.ofEnum e).memberHeads inside →
    Declares indent reference level exported name (.ofEnum e)
      (comments ++
        (indentation indent level ++ (exportText exported ++ "const enum " ++ name ++ " \x7b")) ::
        inside ++ [indentation indent level ++ "\x7d", ""])

namespace Encloses

variable {margin : String} {heads heads' lines lines' : List String}

theorem append (h : Encloses margin heads lines) (h' : Encloses margin heads' lines') :
    Encloses margin (heads ++ heads') (lines ++ lines') := by
  induction h with
  | nil => exact h'
  | empty _ ih => exact .empty ih
  | other text _ ih => exact .other text ih
  | member head rest _ ih => exact .member head rest ih

theorem ite {c : Prop} [Decidable c] (h : Encloses margin heads lines)
    (h' : Encloses margin heads lines') : Encloses margin heads (if c then lines else lines') := by
  split
  · exact h
  · exact h'

theorem flatMap {α : Type} {head : α → String} {f : α → List String}
    (h : ∀ a, Encloses margin [head a] (f a)) (as : List α) :
    Encloses margin (as.map head) (as.flatMap f) := by
  induction as with
  | nil => exact .nil
  | cons a as ih => exact (h a).append ih

theorem separated {blocks : List (List String)}
    (h : List.Forall₂ (fun head block => Encloses margin [head] block) heads blocks)
    (after : Bool) : Encloses margin heads (Printer.separated after blocks) := by
  induction h generalizing after with
  | nil => exact .nil
  | cons hblock _ ih =>
    cases after with
    | false => exact hblock.append (ih true)
    | true => exact .empty (hblock.append (ih true))

theorem flatten {blocks : List (List String)}
    (h : List.Forall₂ (fun head block => Encloses margin [head] block) heads blocks) :
    Encloses margin heads blocks.flatten := by
  induction h with
  | nil => exact .nil
  | cons hblock _ ih => exact hblock.append ih

end Encloses

/-! ## Lines at a level -/

/-- Whether a line is at a level of indentation, or deeper. -/
def IsAtLevel (indent : String) (level : Nat) (line : String) : Prop :=
  ∃ text, line = indentation indent level ++ text

theorem IsAtLevel.of_add {indent : String} {level more : Nat} {line : String}
    (h : IsAtLevel indent (level + more) line) : IsAtLevel indent level line := by
  obtain ⟨text, rfl⟩ := h
  refine ⟨indentation indent more ++ text, ?_⟩
  rw [indentation, ← List.replicate_append_replicate, String.join_append, String.append_assoc]
  rfl

theorem encloses_of_isAtLevel {indent : String} {level : Nat} {lines : List String}
    (h : ∀ line ∈ lines, IsAtLevel indent level line) :
    Encloses (indentation indent level) [] lines := by
  induction lines with
  | nil => exact .nil
  | cons line lines ih =>
    obtain ⟨⟨text, rfl⟩, hlines⟩ := List.forall_mem_cons.mp h
    exact .other text (ih hlines)

section Printer

variable (printer : Printer)

theorem isAtLevel_line (level : Nat) (text : String) :
    IsAtLevel printer.indent level (printer.line level text) :=
  ⟨text, rfl⟩

/-- A line that opens a block, the lines of the block and the line that closes it. -/
theorem isAtLevel_block {level more : Nat} {opening closing : String} {inside : List String}
    (h : ∀ line ∈ inside, IsAtLevel printer.indent (level + more) line) :
    ∀ line ∈ printer.line level opening :: inside ++ [printer.line level closing],
      IsAtLevel printer.indent level line := by
  rw [List.cons_append, List.forall_mem_cons, List.forall_mem_append, List.forall_mem_singleton]
  exact ⟨isAtLevel_line printer level _, fun line hline => (h line hline).of_add,
    isAtLevel_line printer level _⟩

mutual

theorem isAtLevel_statement (level : Nat) : ∀ (s : Statement), ∀ line ∈ printer.statement level s,
    IsAtLevel printer.indent level line
  | .returns none => List.forall_mem_singleton.mpr (isAtLevel_line printer level _)
  | .returns (some _) => List.forall_mem_singleton.mpr (isAtLevel_line printer level _)
  | .when _ body => isAtLevel_block printer (isAtLevel_statements (level + 1) body)
  | .constant _ _ => List.forall_mem_singleton.mpr (isAtLevel_line printer level _)
  | .perform _ => List.forall_mem_singleton.mpr (isAtLevel_line printer level _)
  | .switch _ cases => @isAtLevel_block printer level 0 _ _ _ (isAtLevel_switchCases level cases)
termination_by structural s => s

/-- Code is at its level, or deeper. -/
theorem isAtLevel_statements (level : Nat) : ∀ (body : List Statement),
    ∀ line ∈ printer.statements level body, IsAtLevel printer.indent level line
  | [] => List.forall_mem_nil _
  | s :: rest =>
    List.forall_mem_append.mpr ⟨isAtLevel_statement level s, isAtLevel_statements level rest⟩

theorem isAtLevel_switchCases (level : Nat) : ∀ (cases : List (Expression × List Statement)),
    ∀ line ∈ printer.switchCases level cases, IsAtLevel printer.indent level line
  | [] => List.forall_mem_nil _
  | (_, body) :: rest => by
    rw [Printer.switchCases, List.cons_append, List.forall_mem_cons, List.forall_mem_append]
    exact ⟨(isAtLevel_line printer (level + 1) _).of_add,
      fun line hline => (isAtLevel_statements (level + 2) body line hline).of_add,
      isAtLevel_switchCases level rest⟩

end

/-! ## Members -/

theorem isComment_comments (level : Nat) (texts : List String) :
    IsComment (indentation printer.indent level) (printer.comments level texts) := by
  unfold Printer.comments
  split
  case isTrue => exact List.forall_mem_nil _
  case isFalse =>
    rw [IsComment, List.cons_append, List.forall_mem_cons, List.forall_mem_append,
      List.forall_mem_map, List.forall_mem_singleton]
    refine ⟨.inl rfl, fun text _ => .inr ?_, .inr ⟨"/", rfl⟩⟩
    unfold Printer.commentLine
    split
    · exact ⟨"", rfl⟩
    · exact ⟨" " ++ commentText text, congrArg _ (@String.append_assoc " *" " " _)⟩

/-- Comments in front of the lines of a member. -/
theorem Encloses.comments {level : Nat} {heads lines : List String}
    (h : Encloses (indentation printer.indent level) heads lines) (texts : List String) :
    Encloses (indentation printer.indent level) heads (printer.comments level texts ++ lines) := by
  refine (encloses_of_isAtLevel fun line hline => ?_).append h
  obtain rfl | ⟨text, rfl⟩ := isComment_comments printer level texts line hline
  · exact ⟨_, rfl⟩
  · exact ⟨_, rfl⟩

/-- A line that starts with a text, and deeper lines up to a brace. -/
theorem encloses_block {level : Nat} {inside : List String} (head rest : String)
    (h : ∀ line ∈ inside, IsAtLevel printer.indent (level + 1) line) :
    Encloses (indentation printer.indent level) [head]
      (printer.line level (head ++ rest) :: inside ++ [printer.line level "\x7d"]) :=
  .member head rest (.append (encloses_of_isAtLevel fun line hline => (h line hline).of_add)
    (.other "\x7d" .nil))

theorem encloses_property (level : Nat) (p : Property) :
    Encloses (indentation printer.indent level) [p.modifiers.text ++ propertyName p.name]
      (printer.property level p) := by
  obtain ⟨rest, hrest⟩ : ∃ rest, p.type.labelled printer.name (propertyName p.name) =
      propertyName p.name ++ rest := by
    unfold TypeExpr.labelled
    split
    all_goals exact ⟨_, String.append_assoc⟩
  rw [Printer.property, hrest, ← String.append_assoc, String.append_assoc]
  exact .comments printer (.member _ _ .nil) _

theorem encloses_constructor (level : Nat) (c : Constructor) :
    Encloses (indentation printer.indent level) ["constructor("] (printer.constructor level c) := by
  rw [Printer.constructor, String.append_assoc]
  exact encloses_block printer _ _ (isAtLevel_statements printer (level + 1) c.body)

theorem encloses_method (level : Nat) (inClass : Bool) (m : Method) :
    Encloses (indentation printer.indent level) [m.modifiers.text ++ propertyName m.name]
      (printer.method level inClass m) := by
  obtain ⟨rest, hrest⟩ : ∃ rest, printer.signature m =
      m.modifiers.text ++ propertyName m.name ++ rest := by
    simp only [Printer.signature, String.append_assoc]
    exact ⟨_, rfl⟩
  unfold Printer.method
  rw [hrest]
  refine .comments printer ?_ _
  split
  case h_1 body _ =>
    rw [String.append_assoc]
    exact encloses_block printer _ _ (isAtLevel_statements printer (level + 1) body)
  case h_2 =>
    rw [String.append_assoc]
    exact .member _ _ .nil

theorem encloses_enumMember (level : Nat) (representation : EnumRepresentation) (m : EnumMember) :
    Encloses (indentation printer.indent level) [propertyName m.name]
      (printer.enumMember level representation m) := by
  refine .comments printer ?_ _
  split
  case h_3 => exact .member _ _ .nil
  all_goals
    simp only [String.append_assoc]
    exact .member _ _ .nil

/-- The constructor and the methods, each block with the text that it starts with. -/
theorem encloses_members (level : Nat) (d : DataDeclaration) :
    List.Forall₂ (fun head block => Encloses (indentation printer.indent level) [head] block)
      ((if d.isClass then d.ctor.toList.map fun _ => "constructor(" else []) ++
        d.methods.map fun m => m.modifiers.text ++ propertyName m.name)
      (printer.members level d) := by
  refine List.rel_append ?_ (List.forall₂_map_left_iff.mpr (List.forall₂_map_right_iff.mpr
    (List.forall₂_same.mpr fun m _ => encloses_method printer level d.isClass m)))
  split
  · exact List.forall₂_map_left_iff.mpr (List.forall₂_map_right_iff.mpr
      (List.forall₂_same.mpr fun c _ => encloses_constructor printer level c))
  · exact .nil

/-- What is written of a declaration declares its name. -/
theorem declares_declaration (level : Nat) (exported : Bool) (d : Declaration) :
    Declares printer.indent printer.name level exported (printer.simpleName d.symbol) d
      (printer.declaration level exported d) := by
  cases d with
  | ofData d =>
    have hinside :
        Encloses (indentation printer.indent (level + 1)) (Declaration.ofData d).memberHeads
        (d.properties.flatMap (printer.property (level + 1)) ++
          (if d.isClass then
            Printer.separated (!d.properties.isEmpty) (printer.members (level + 1) d)
          else (printer.members (level + 1) d).flatten)) := by
      have hmembers := encloses_members printer (level + 1) d
      exact .append (.flatMap (encloses_property printer (level + 1)) d.properties)
        (.ite (.separated hmembers _) (.flatten hmembers))
    rw [Printer.declaration, Printer.data, Printer.header, List.append_assoc _ [_] [_],
      List.append_assoc (printer.comments _ _), List.cons_append]
    exact .ofData _ (isComment_comments printer level d.comments) hinside
  | ofAlias a =>
    rw [Printer.declaration, Printer.typeAlias, List.append_assoc]
    exact .ofAlias (isComment_comments printer level a.comments)
  | ofEnum e =>
    rw [Printer.declaration, Printer.enumeration, List.append_assoc _ [_] [_]]
    exact .ofEnum (isComment_comments printer level e.comments)
      (.flatMap (encloses_enumMember printer (level + 1) e.representation) e.members)

end Printer

end Emission

end Typings
