import Typings.Emission.Document

/-!
# Comments of generated code

A block comment extends to the first star that a slash follows, whatever stands in between. So a
text that is written as a comment must not hold these two characters side by side. Escaping parts
them inside a line. Where lines and indentation are put together, a star stands before a blank,
before the end of a line or, at the very end, before the closing slash.

## Main definitions

* `commentEnds`: how often a text holds the end of a comment.
* `skipComment?`: what follows the block comment that a text starts with.
* `IsOneComment`: a text is one block comment with blanks around it.

## Main results

* `commentEnds_append`: where two texts meet, one more end can arise.
* `commentEnds_escapeComment`: escaped text holds no end of a comment.
* `comments_isOneComment`: comments are written as one block comment each.
-/

namespace Typings.Emission

/-! ## Ends of comments -/

/-- How many stars with a slash right after them a text holds. -/
def commentEnds : List Char → Nat
  | [] => 0
  | c :: cs => (if c = '*' ∧ cs.head? = some '/' then 1 else 0) + commentEnds cs

/-- What follows the first end of a comment. -/
def afterComment? : List Char → Option (List Char)
  | [] => none
  | '*' :: '/' :: rest => some rest
  | _ :: rest => afterComment? rest

/-- What follows the block comment that a text starts with. -/
def skipComment? : List Char → Option (List Char)
  | '/' :: '*' :: rest => afterComment? rest
  | _ => none

/-- Whether a text is one block comment with blanks around it: it holds one end of a comment, at the
end of the comment, and whatever comes after the comment is not part of it. -/
structure IsOneComment (text : List Char) : Prop where
  commentEnds_eq_one : commentEnds text = 1
  exists_comment : ∃ before comment after, text = before ++ (comment ++ after) ∧
    (∀ c ∈ before ++ after, Text.isBlank c = true) ∧ ['*', '/'] <:+ comment ∧
    ∀ rest, skipComment? (comment ++ rest) = some rest

/-- Where two texts meet, one more end of a comment can arise. -/
theorem commentEnds_append (l r : List Char) :
    commentEnds (l ++ r) =
      commentEnds l + (if l.getLast? = some '*' ∧ r.head? = some '/' then 1 else 0) +
        commentEnds r := by
  induction l with
  | nil => simp [commentEnds]
  | cons c l ih =>
    rw [List.cons_append, commentEnds, ih, commentEnds]
    cases l with
    | nil => simp [commentEnds]
    | cons d l => simp [Nat.add_assoc]

theorem commentEnds_eq_zero_of_ne_star {cs : List Char} (h : ∀ c ∈ cs, c ≠ '*') :
    commentEnds cs = 0 := by
  induction cs with
  | nil => rfl
  | cons c cs ih =>
    obtain ⟨hc, hcs⟩ := List.forall_mem_cons.mp h
    rw [commentEnds, if_neg fun hend => hc hend.1, ih hcs]

/-- A comment ends at the first end that comes after its start. -/
theorem afterComment?_append {body : List Char} (h : commentEnds (body ++ ['*']) = 0)
    (rest : List Char) : afterComment? (body ++ '*' :: '/' :: rest) = some rest := by
  induction body with
  | nil => rfl
  | cons c body ih =>
    rw [List.cons_append, commentEnds, Nat.add_eq_zero_iff] at h
    obtain ⟨hc, hbody⟩ := h
    rw [List.cons_append, afterComment?, ih hbody]
    rintro rest' rfl hrest
    cases body with
    | nil => cases hrest
    | cons d body => simp_all

/-! ## Texts that can be put together -/

/-- Whether a text can be followed by anything without an end of a comment up to there. -/
structure IsInert (cs : List Char) : Prop where
  commentEnds_eq_zero : commentEnds cs = 0
  getLast?_ne : cs.getLast? ≠ some '*'

namespace IsInert

theorem nil : IsInert [] := ⟨rfl, by simp⟩

theorem commentEnds_append {l : List Char} (h : IsInert l) (r : List Char) :
    commentEnds (l ++ r) = commentEnds r := by
  rw [Emission.commentEnds_append, h.commentEnds_eq_zero, if_neg fun hend => h.getLast?_ne hend.1]
  omega

theorem append {l r : List Char} (hl : IsInert l) (hr : IsInert r) : IsInert (l ++ r) := by
  refine ⟨(hl.commentEnds_append r).trans hr.commentEnds_eq_zero, ?_⟩
  rw [List.getLast?_append]
  cases hlast : r.getLast? with
  | none => simpa using hl.getLast?_ne
  | some c => simpa [hlast] using hr.getLast?_ne

theorem flatMap {α : Type} {f : α → List Char} {as : List α} (h : ∀ a ∈ as, IsInert (f a)) :
    IsInert (as.flatMap f) := by
  induction as with
  | nil => exact nil
  | cons a as ih =>
    obtain ⟨ha, has⟩ := List.forall_mem_cons.mp h
    exact ha.append (ih has)

theorem of_isBlank {cs : List Char} (h : ∀ c ∈ cs, Text.isBlank c = true) : IsInert cs := by
  have hstar : ∀ c ∈ cs, c ≠ '*' := by
    rintro c hc rfl
    exact absurd (h _ hc) (by decide)
  exact ⟨commentEnds_eq_zero_of_ne_star hstar,
    fun hlast => hstar _ (List.mem_of_getLast? hlast) rfl⟩

end IsInert

/-- An inert text between the marks of a comment is one block comment. -/
theorem IsOneComment.of_isInert {before body after : List Char}
    (hbefore : ∀ c ∈ before, Text.isBlank c = true) (hbody : IsInert ('*' :: body))
    (hafter : ∀ c ∈ after, Text.isBlank c = true) :
    IsOneComment (before ++ ('/' :: '*' :: body ++ ['*', '/'] ++ after)) := by
  have hopening : IsInert ('/' :: '*' :: body) := IsInert.append (l := ['/']) ⟨rfl, by decide⟩ hbody
  have hend : commentEnds (['*', '/'] ++ after) = 1 := by
    rw [commentEnds_append, (IsInert.of_isBlank hafter).commentEnds_eq_zero]
    rfl
  refine ⟨?_, before, _, after, rfl, ?_, List.suffix_append _ _, fun rest => ?_⟩
  · rw [(IsInert.of_isBlank hbefore).commentEnds_append, List.append_assoc,
      hopening.commentEnds_append, hend]
  · exact fun c hc => (List.mem_append.mp hc).elim (hbefore c) (hafter c)
  · have hopen : commentEnds ('*' :: (body ++ ['*'])) = 0 := hbody.commentEnds_append ['*']
    rw [commentEnds, Nat.add_eq_zero_iff] at hopen
    rw [List.append_assoc]
    exact afterComment?_append hopen.2 rest

/-! ## Escaped texts -/

@[simp]
theorem toList_commentText (text : String) :
    (commentText text).toList = escapeComment text.toList :=
  String.toList_ofList

theorem head?_escapeComment (cs : List Char) : (escapeComment cs).head? = cs.head? := by
  unfold escapeComment
  split <;> rfl

/-- Escaped text holds no end of a comment: a slash stays beside a star nowhere. -/
theorem commentEnds_escapeComment (cs : List Char) : commentEnds (escapeComment cs) = 0 := by
  fun_induction escapeComment cs with
  | case1 => rfl
  | case2 rest ih => simp [commentEnds, ih]
  | case3 c rest hparted ih =>
    have hend : ¬(c = '*' ∧ (escapeComment rest).head? = some '/') := by
      rintro ⟨rfl, hslash⟩
      rw [head?_escapeComment] at hslash
      obtain ⟨rest', rfl⟩ := List.head?_eq_some_iff.mp hslash
      exact hparted rest' rfl rfl
    rw [commentEnds, if_neg hend, ih]

/-- The stars and slashes of overlapping ends are parted once each. -/
example : commentText "**/*/" = "**\\/*\\/" := by decide +kernel

/-- Escaped text is inert once a blank follows it. -/
theorem isInert_escapeComment_append (cs : List Char) {blank : Char}
    (h : Text.isBlank blank = true) : IsInert (escapeComment cs ++ [blank]) := by
  have hblank : IsInert [blank] := .of_isBlank (by simpa using h)
  have hslash : blank ≠ '/' := by
    rintro rfl
    exact absurd h (by decide)
  refine ⟨?_, ?_⟩
  · rw [commentEnds_append, commentEnds_escapeComment, hblank.commentEnds_eq_zero]
    simp [hslash]
  · rw [List.getLast?_append]
    simpa using hblank.getLast?_ne

/-! ## Comments -/

section Blocks

variable {printer : Printer} (level : Nat)

/-- The indentation of a level. -/
def margin (printer : Printer) (level : Nat) : List Char :=
  (List.replicate level printer.indent).flatMap (·.toList)

theorem toList_line (text : String) :
    (printer.line level text).toList = margin printer level ++ text.toList := by
  rw [Printer.line, String.toList_append, String.toList_join]
  rfl

variable (hindent : Text.isBlankText printer.indent = true)
include hindent

theorem isBlank_of_mem_margin : ∀ c ∈ margin printer level, Text.isBlank c = true := by
  intro c hc
  obtain ⟨indent, hmem, hc⟩ := List.mem_flatMap.mp hc
  obtain rfl := List.eq_of_mem_replicate hmem
  exact List.all_eq_true.mp hindent c hc

/-- A line of a comment is inert, whatever it says. -/
theorem isInert_commentLine (text : String) :
    IsInert ((printer.commentLine level (commentText text) ++ "\n").toList) := by
  have hmargin := IsInert.of_isBlank (isBlank_of_mem_margin level hindent)
  rw [Printer.commentLine, String.toList_append, toList_line, List.append_assoc]
  refine hmargin.append ?_
  split
  case isTrue => exact ⟨rfl, by decide⟩
  case isFalse =>
    rw [String.toList_append, List.append_assoc, toList_commentText]
    have hstart : IsInert " * ".toList := ⟨rfl, by decide⟩
    exact hstart.append (isInert_escapeComment_append _ (by decide))

theorem isOneComment_comments {texts : List String} (htexts : texts ≠ []) :
    IsOneComment (String.join ((printer.comments level texts).map (· ++ "\n"))).toList := by
  let lines := (texts.flatMap Text.lines).flatMap fun text =>
    (printer.commentLine level (commentText text) ++ "\n").toList
  have htext : (String.join ((printer.comments level texts).map (· ++ "\n"))).toList =
      margin printer level ++
        ('/' :: '*' :: ('*' :: '\n' :: (lines ++ (margin printer level ++ [' ']))) ++
        ['*', '/'] ++ ['\n']) := by
    rw [Printer.comments, if_neg (by simpa using htexts)]
    simp [String.toList_join, toList_line, List.flatMap_map, lines]
  have hmargin := isBlank_of_mem_margin level hindent
  have hopening : IsInert ['*', '*', '\n'] := ⟨rfl, by decide⟩
  have hclosing : IsInert [' '] := ⟨rfl, by decide⟩
  have hlines : IsInert lines := .flatMap fun text _ => isInert_commentLine level hindent text
  rw [htext]
  exact .of_isInert hmargin
    (hopening.append (hlines.append ((IsInert.of_isBlank hmargin).append hclosing)))
    (List.forall_mem_singleton.mpr (by decide))

end Blocks

/-- The comment at the top of a document is one block comment, whatever it says. -/
theorem isOneComment_fileCommentLines {options : EmitOptions} {text : String}
    (h : options.fileComment = some text) :
    IsOneComment (String.join ((fileCommentLines options).map (· ++ "\n"))).toList := by
  have htext : (String.join ((fileCommentLines options).map (· ++ "\n"))).toList =
      [] ++ ('/' :: '*' :: (' ' :: (escapeComment text.toList ++ [' '])) ++ ['*', '/'] ++
        ['\n', '\n']) := by
    simp [fileCommentLines, h]
  have hopening : IsInert ['*', ' '] := ⟨rfl, by decide⟩
  have hlineEnd : Text.isBlank '\n' = true := by decide
  rw [htext]
  exact .of_isInert (List.forall_mem_nil _)
    (hopening.append (isInert_escapeComment_append _ (by decide)))
    (List.forall_mem_cons.mpr ⟨hlineEnd, List.forall_mem_singleton.mpr hlineEnd⟩)

/-- The comments of a declaration or member and the comment at the top of a document are one block
comment each, whatever they say. -/
theorem comments_isOneComment :
    (∀ (printer : Printer) (level : Nat) (texts : List String),
      Text.isBlankText printer.indent = true → texts ≠ [] →
        IsOneComment (String.join ((printer.comments level texts).map (· ++ "\n"))).toList) ∧
    ∀ (options : EmitOptions) (text : String), options.fileComment = some text →
      IsOneComment (String.join ((fileCommentLines options).map (· ++ "\n"))).toList :=
  ⟨fun _ level _ hindent htexts => isOneComment_comments level hindent htexts,
    fun _ _ hcomment => isOneComment_fileCommentLines hcomment⟩

/-- Stars and slashes at the ends of lines, side by side and overlapping. -/
theorem comments_isOneComment_marks :
    let printer : Printer := ⟨"\t", fun _ => "", fun _ => ""⟩
    let texts := ["**/*/", "/ *\r\n/", "", "*"]
    Text.isBlankText printer.indent = true ∧ texts ≠ [] ∧
      IsOneComment (String.join ((printer.comments 2 texts).map (· ++ "\n"))).toList ∧
      IsOneComment (String.join ((fileCommentLines { fileComment := some "/*/**" }).map
        (· ++ "\n"))).toList := by
  intro printer texts
  have hindent : Text.isBlankText printer.indent = true := by decide
  have htexts : texts ≠ [] := by decide
  exact ⟨hindent, htexts, comments_isOneComment.1 printer 2 texts hindent htexts,
    comments_isOneComment.2 { fileComment := some "/*/**" } "/*/**" rfl⟩

end Typings.Emission
