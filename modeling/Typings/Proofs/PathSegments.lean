import Typings.Proofs.Service.Methods
import Typings.Proofs.Service.PathTemplate

/-!
# Segments of a path

A path is cut into literal texts and the texts of parameters, so that nothing is lost. A parameter
is taken wherever one starts, so a literal text holds no start of a parameter, not even of one that
would extend beyond the literal text. Where a parameter starts its end is settled.

## Main definitions

* `PathTemplate.StandsFor`: the text that a part of a template stands for.
* `PathTemplate.StartsParameter`: a text starts with that of a parameter.
* `PathTemplate.IsSegmentation`: a path is cut into the texts of parts.

## Main results

* `PathTemplate.startsParameter_iff`: a parameter is read exactly where one starts.
* `PathTemplate.IsParameter.unique`: where a parameter starts its end is settled.
* `PathTemplate.existsUnique_segmentation`: a path is cut into the texts of its parts in one way.
-/

namespace Typings.PathTemplate

/-! ## Texts of parameters -/

def StartsParameter (cs : List Char) : Prop :=
  ∃ text name pattern tail, IsParameter text name pattern ∧ cs = text ++ tail

/-- A parameter is read exactly where one starts. -/
theorem startsParameter_iff {cs : List Char} :
    StartsParameter ('\x7b' :: cs) ↔ (parameter? cs).isSome = true := by
  constructor
  · rintro ⟨text, name, pattern, tail, hparameter, htext⟩
    obtain ⟨cs', pattern', hcs, hread⟩ := hparameter.exists_parameter? tail
    obtain ⟨-, rfl⟩ := List.cons.inj (htext.trans hcs)
    rw [hread, Option.isSome_some]
  · intro hsome
    obtain ⟨⟨part, rest⟩, hread⟩ := Option.isSome_iff_exists.mp hsome
    obtain ⟨text, name, pattern, -, hparameter, htext⟩ := isParameter_of_parameter? hread
    exact ⟨text, name, pattern, rest, hparameter, htext⟩

/-- A parameter starts with an opening brace. -/
theorem not_startsParameter_of_ne {c : Char} (h : c ≠ '\x7b') (cs : List Char) :
    ¬StartsParameter (c :: cs) := by
  rintro ⟨text, name, pattern, tail, hparameter, htext⟩
  obtain ⟨cs', -, hcs, -⟩ := hparameter.exists_parameter? tail
  exact h (List.cons.inj (htext.trans hcs)).1

/-- Where a parameter starts its end is settled. -/
theorem IsParameter.unique {text text' tail tail' : List Char} {name name' : String}
    {pattern pattern' : Option String} (h : IsParameter text name pattern)
    (h' : IsParameter text' name' pattern') (htext : text ++ tail = text' ++ tail') :
    text = text' ∧ tail = tail' := by
  obtain ⟨cs, _, hcs, hread⟩ := h.exists_parameter? tail
  obtain ⟨cs', _, hcs', hread'⟩ := h'.exists_parameter? tail'
  obtain ⟨-, rfl⟩ := List.cons.inj (hcs.symm.trans (htext.trans hcs'))
  obtain ⟨-, rfl⟩ := Prod.mk.inj (Option.some.inj (hread.symm.trans hread'))
  exact ⟨List.append_cancel_right htext, rfl⟩

/-! ## Segmentations -/

/-- The text that a part of a template stands for: a literal text that is not empty, or that of a
parameter with its name and pattern. -/
inductive StandsFor : PathPart → List Char → Prop
  | literal {text : List Char} (hne : text ≠ []) : StandsFor (.literal (String.ofList text)) text
  | parameter {text : List Char} {name : String} {pattern : Option String}
      (hparameter : IsParameter text name pattern) : StandsFor (.parameter name pattern) text

theorem StandsFor.ne_empty {part : PathPart} {text : List Char} (h : StandsFor part text) :
    part ≠ .literal "" := by
  cases h with
  | literal hne =>
    intro heq
    exact hne (by simpa using PathPart.literal.inj heq)
  | parameter _ =>
    intro heq
    cases heq

def textOf (segments : List (PathPart × List Char)) : List Char :=
  segments.flatMap (·.2)

/-- Whether no parameter starts inside a text that another text follows. -/
def Unmatched (text after : List Char) : Prop :=
  ∀ start rest, text = start ++ rest → rest ≠ [] → ¬StartsParameter (rest ++ after)

/-- Whether segments are the parts of a template with the texts that they stand for, a path is these
texts one after the other, and no parameter starts inside a literal text. -/
structure IsSegmentation (path : List Char) (parts : List PathPart)
    (segments : List (PathPart × List Char)) : Prop where
  map_fst : segments.map (·.1) = parts
  textOf_eq : textOf segments = path
  standsFor : ∀ segment ∈ segments, StandsFor segment.1 segment.2
  unmatched : ∀ before after text literal, segments = before ++ (.literal text, literal) :: after →
    Unmatched literal (textOf after)

theorem Unmatched.nil (after : List Char) : Unmatched [] after := by
  intro start rest heq hne
  exact absurd (List.append_eq_nil_iff.mp heq.symm).2 hne

/-- A character at which no parameter starts is added to the text. -/
theorem Unmatched.snoc {text after : List Char} {c : Char} (h : Unmatched text (c :: after))
    (hc : ¬StartsParameter (c :: after)) : Unmatched (text ++ [c]) after := by
  intro start rest heq hne
  obtain ⟨rest, d, rfl⟩ := (List.eq_nil_or_concat rest).resolve_left hne
  rw [List.concat_eq_append, ← List.append_assoc] at heq
  obtain ⟨rfl, hlast⟩ := List.append_inj' heq rfl
  obtain rfl := List.singleton_inj.mp hlast
  rw [List.concat_eq_append, List.append_assoc, List.singleton_append]
  by_cases hrest : rest = []
  · rw [hrest]
    exact hc
  · exact h start rest rfl hrest

namespace IsSegmentation

variable {path : List Char} {parts : List PathPart} {segments : List (PathPart × List Char)}

theorem nil : IsSegmentation [] [] [] :=
  ⟨rfl, rfl, List.forall_mem_nil _, fun _ _ _ _ h => absurd h (by simp)⟩

/-- A part is put before the others with the text that it stands for. -/
theorem cons (h : IsSegmentation path parts segments) {part : PathPart} {text : List Char}
    (hpart : StandsFor part text)
    (hunmatched : ∀ literal, part = .literal literal → Unmatched text path) :
    IsSegmentation (text ++ path) (part :: parts) ((part, text) :: segments) := by
  refine ⟨congrArg (part :: ·) h.map_fst, congrArg (text ++ ·) h.textOf_eq,
    List.forall_mem_cons.mpr ⟨hpart, h.standsFor⟩, ?_⟩
  intro before after literal chars heq
  cases before with
  | nil =>
    obtain ⟨hsegment, rfl⟩ := List.cons.inj heq
    obtain ⟨rfl, rfl⟩ := Prod.mk.inj hsegment
    rw [h.textOf_eq]
    exact hunmatched literal rfl
  | cons segment before => exact h.unmatched before after literal chars (List.cons.inj heq).2

theorem exists_literalPart (h : IsSegmentation path parts segments) {text : List Char}
    (hunmatched : Unmatched text path) :
    ∃ segments', IsSegmentation (text ++ path) (literalPart text ++ parts) segments' := by
  unfold literalPart
  split
  case isTrue hempty =>
    rw [List.isEmpty_iff.mp hempty]
    exact ⟨segments, h⟩
  case isFalse hne =>
    exact ⟨_, h.cons (.literal (mt List.isEmpty_iff.mpr hne)) fun _ _ => hunmatched⟩

end IsSegmentation

/-- A text is cut into the literal text before it and its parts, if no parameter starts in the
former. -/
theorem exists_segmentation_partsFrom (literal cs : List Char) (h : Unmatched literal.reverse cs) :
    ∃ segments, IsSegmentation (literal.reverse ++ cs) (partsFrom literal cs) segments := by
  fun_induction partsFrom literal cs with
  | case1 literal =>
    simpa only [List.append_nil] using IsSegmentation.nil.exists_literalPart h
  | case2 literal cs part rest hfound ih =>
    obtain ⟨text, name, pattern, rfl, hparameter, htext⟩ := isParameter_of_parameter? hfound
    obtain ⟨segments, hsegments⟩ := ih (.nil rest)
    rw [htext] at h ⊢
    exact (hsegments.cons (.parameter hparameter)
      fun literal hliteral => by cases hliteral).exists_literalPart h
  | case3 literal cs hnone ih =>
    have hstart : ¬StartsParameter ('\x7b' :: cs) := by
      rw [startsParameter_iff, hnone]
      exact Bool.false_ne_true
    have hsnoc := h.snoc hstart
    rw [← List.reverse_cons] at hsnoc
    simpa using ih hsnoc
  | case4 literal c cs hc ih =>
    have hsnoc := h.snoc (not_startsParameter_of_ne hc cs)
    rw [← List.reverse_cons] at hsnoc
    simpa using ih hsnoc

/-! ## The texts are settled -/

theorem StandsFor.unique {part : PathPart} {text text' tail tail' : List Char}
    (h : StandsFor part text)
    (h' : StandsFor part text') (htext : text ++ tail = text' ++ tail') :
    text = text' ∧ tail = tail' := by
  cases h with
  | literal _ =>
    generalize hpart : PathPart.literal _ = part at h'
    cases h' with
    | literal _ =>
      obtain rfl := String.ofList_inj.mp (PathPart.literal.inj hpart)
      exact ⟨rfl, List.append_cancel_left htext⟩
    | parameter _ => cases hpart
  | parameter hparameter =>
    cases h' with
    | parameter hparameter' => exact hparameter.unique hparameter' htext

theorem eq_of_standsFor {segments segments' : List (PathPart × List Char)}
    (h : ∀ segment ∈ segments, StandsFor segment.1 segment.2)
    (h' : ∀ segment ∈ segments', StandsFor segment.1 segment.2)
    (hparts : segments.map (·.1) = segments'.map (·.1))
    (htext : textOf segments = textOf segments') : segments = segments' := by
  induction segments generalizing segments' with
  | nil => exact (List.map_eq_nil_iff.mp hparts.symm).symm
  | cons segment segments ih =>
    cases segments' with
    | nil => cases hparts
    | cons segment' segments' =>
      obtain ⟨part, text⟩ := segment
      obtain ⟨part', text'⟩ := segment'
      obtain ⟨hpart, hrestParts⟩ := List.cons.inj hparts
      obtain ⟨hfirst, hrest⟩ := List.forall_mem_cons.mp h
      obtain ⟨hfirst', hrest'⟩ := List.forall_mem_cons.mp h'
      dsimp only at hpart hfirst hfirst'
      subst hpart
      obtain ⟨rfl, htail⟩ := hfirst.unique hfirst' htext
      rw [ih hrest hrest' hrestParts htail]

/-! ## Parts -/

/-- A part is a parameter if the one before it is a literal. -/
theorem isChain_partsFrom (literal cs : List Char) :
    (partsFrom literal cs).IsChain fun a b => a.parameter? ≠ none ∨ b.parameter? ≠ none := by
  fun_induction partsFrom literal cs with
  | case1 literal =>
    unfold literalPart
    split
    · exact .nil
    · exact .singleton _
  | case2 literal cs part rest hfound ih =>
    obtain ⟨text, name, pattern, rfl, -⟩ := isParameter_of_parameter? hfound
    have hname : (PathPart.parameter name pattern).parameter? ≠ none := Option.some_ne_none name
    have hparameter : (PathPart.parameter name pattern :: partsFrom [] rest).IsChain
        fun a b => a.parameter? ≠ none ∨ b.parameter? ≠ none :=
      List.isChain_cons.mpr ⟨fun b _ => Or.inl hname, ih⟩
    unfold literalPart
    split
    · exact hparameter
    · exact List.isChain_cons.mpr ⟨by rintro b ⟨⟩; exact .inr hname, hparameter⟩
  | case3 literal cs hnone ih => exact ih
  | case4 literal c cs hc ih => exact ih

/-- A path is cut into the texts of its parts in one way. The literal texts among them are not
empty, are not next to each other, and hold no start of a parameter; the other texts are those of
parameters. -/
theorem existsUnique_segmentation (path : String) :
    .literal "" ∉ (parse path).parts ∧
    ((parse path).parts.IsChain fun a b => a.parameter? ≠ none ∨ b.parameter? ≠ none) ∧
    ∃! segments, IsSegmentation path.toList (parse path).parts segments := by
  obtain ⟨segments, hsegments⟩ := exists_segmentation_partsFrom [] path.toList (.nil path.toList)
  have hparts : segments.map (·.1) = (parse path).parts := hsegments.map_fst
  refine ⟨fun hempty => ?_, isChain_partsFrom [] path.toList, segments, hsegments,
    fun segments' h' => ?_⟩
  · obtain ⟨segment, hsegment, heq⟩ := List.mem_map.mp (hparts ▸ hempty)
    exact (hsegments.standsFor segment hsegment).ne_empty heq
  · exact eq_of_standsFor h'.standsFor hsegments.standsFor (h'.map_fst.trans hparts.symm)
      (h'.textOf_eq.trans hsegments.textOf_eq.symm)

/-- A brace that opens no parameter is literal text, although the next one opens a parameter. -/
example : parse "\x7ba\x7b b : c\x7bd\x7d \x7de\x7d" =
    ⟨[.literal "\x7ba", .parameter "b" (some "c\x7bd\x7d "), .literal "e\x7d"]⟩ := by
  decide +kernel

end Typings.PathTemplate
