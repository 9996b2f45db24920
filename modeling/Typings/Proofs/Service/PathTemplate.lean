import Mathlib.Data.List.TakeWhile
import Typings.Proofs.Identifier
import Typings.Service.PathTemplate

/-!
# Parameters in paths

The text of a parameter is a name between braces, possibly with a pattern, and blanks around both. A
pattern is a run of characters without blanks and braces with groups in braces after it. Such a text
can be split in several ways, since blanks after a group may belong to the pattern or not. But the
characters that may come next always differ, so one way to read it finds the name and the end of
every parameter.

## Main definitions

* `PathTemplate.IsGroups`, `PathTemplate.IsPattern`: groups in braces and patterns.
* `PathTemplate.IsName`, `PathTemplate.IsParameter`: names, and the texts of parameters.
* `PathTemplate.Reads`: what the text after an opening brace consists of if it is read as a
  parameter, as far as its braces matter.

## Main results

* `PathTemplate.isParameter_of_parameter?`: only the texts of parameters are read as parameters.
* `PathTemplate.IsParameter.exists_parameter?`: the text of a parameter is read as one, up to its
  end.
-/

namespace Typings.PathTemplate

/-! ## Spans -/

variable {c : Char} {p : Char → Bool} {cs gap groups rest : List Char} {part : PathPart}

theorem takeWhile_append_stop {l r : List Char} (hl : ∀ c ∈ l, p c = true)
    (hr : ∀ c ∈ r.head?, p c = false) : (l ++ r).takeWhile p = l := by
  rw [List.takeWhile_append_of_pos hl]
  cases r with
  | nil => simp
  | cons c r => simp [hr c rfl]

theorem dropWhile_append_stop {l r : List Char} (hl : ∀ c ∈ l, p c = true)
    (hr : ∀ c ∈ r.head?, p c = false) : (l ++ r).dropWhile p = r := by
  rw [List.dropWhile_append_of_pos hl]
  cases r with
  | nil => simp
  | cons c r => simp [hr c rfl]

theorem skipBlanks_append {blanks : List Char} (hblanks : ∀ c ∈ blanks, Text.isBlank c = true)
    (hcs : ∀ c ∈ cs.head?, Text.isBlank c = false) : skipBlanks (blanks ++ cs) = cs :=
  dropWhile_append_stop hblanks hcs

/-- Before a text that does not start with such a character, blanks do not start with one either. -/
theorem head?_blanks_append (hp : ∀ c, Text.isBlank c = true → p c = false)
    (hgap : ∀ c ∈ gap, Text.isBlank c = true) (hcs : ∀ c ∈ cs.head?, p c = false) :
    ∀ c ∈ (gap ++ cs).head?, p c = false := by
  cases gap with
  | nil => exact hcs
  | cons blank gap =>
    rintro c ⟨⟩
    exact hp blank (hgap blank List.mem_cons_self)

theorem isPlain_of_class (hopening : p '\x7b' = false) (hclosing : p '\x7d' = false)
    (h : p c = true) : isPlain c = true := by
  simp only [isPlain, Bool.and_eq_true, decide_eq_true_eq]
  constructor
  · rintro rfl
    exact Bool.false_ne_true (hopening.symm.trans h)
  · rintro rfl
    exact Bool.false_ne_true (hclosing.symm.trans h)

theorem isPlain_of_isBlank (h : Text.isBlank c = true) : isPlain c = true :=
  isPlain_of_class (by decide) (by decide) h

theorem isPlain_of_isPatternStart (h : isPatternStart c = true) : isPlain c = true :=
  (Bool.and_eq_true_iff.mp h).1

theorem isNamePart_brace : isNamePart '\x7b' = false := by
  decide +kernel

theorem isPlain_of_isNamePart (h : isNamePart c = true) : isPlain c = true :=
  isPlain_of_class isNamePart_brace (by decide +kernel) h

theorem isNamePart_of_isWord (h : Text.isWord c = true) : isNamePart c = true := by
  simp [isNamePart, h]

theorem isNamePart_of_isBlank (c : Char) (h : Text.isBlank c = true) : isNamePart c = false := by
  apply Bool.eq_false_iff.mpr
  intro hname
  simp only [isNamePart, Bool.or_eq_true, decide_eq_true_eq] at hname
  rcases hname with (hword | rfl) | rfl
  · exact absurd h (Bool.eq_false_iff.mp (Text.isBlank_eq_false_of_isWord hword))
  · exact absurd h (by decide)
  · exact absurd h (by decide)

theorem isPatternStart_of_isBlank (c : Char) (h : Text.isBlank c = true) :
    isPatternStart c = false := by
  simp [isPatternStart, h]

/-! ## Groups in braces -/

/-- Groups in braces, each with the plain text after it. -/
inductive IsGroups : List Char → Prop
  | nil : IsGroups []
  | cons {inside between more : List Char} (hinside : ∀ c ∈ inside, isPlain c = true)
      (hbetween : ∀ c ∈ between, isPlain c = true) (hmore : IsGroups more) :
      IsGroups ('\x7b' :: inside ++ '\x7d' :: between ++ more)

theorem IsGroups.eq_nil_or_cons (h : IsGroups groups) :
    groups = [] ∨ ∃ rest, groups = '\x7b' :: rest := by
  cases h with
  | nil => exact .inl rfl
  | cons _ _ _ => exact .inr ⟨_, rfl⟩

/-- Plain text after groups belongs to the last of them. -/
theorem IsGroups.append_plain (h : IsGroups groups) (hne : groups ≠ [])
    (hgap : ∀ c ∈ gap, isPlain c = true) : IsGroups (groups ++ gap) := by
  induction h with
  | nil => exact absurd rfl hne
  | @cons inside between more hinside hbetween hmore ih =>
    rcases hmore.eq_nil_or_cons with rfl | ⟨rest, rfl⟩
    · have hbetween' : ∀ c ∈ between ++ gap, isPlain c = true := fun c hc =>
        (List.mem_append.mp hc).elim (hbetween c) (hgap c)
      simpa using IsGroups.cons hinside hbetween' .nil
    · simpa using IsGroups.cons hinside hbetween (ih (List.cons_ne_nil _ _))

theorem isGroups_braceGroups (cs : List Char) : IsGroups (braceGroups cs).1 := by
  fun_induction braceGroups cs with
  | case1 => exact .nil
  | case2 cs rest hclosing more after hmore ih =>
    rw [hmore] at ih
    exact .cons (fun _ => List.mem_takeWhile_imp) (fun _ => List.mem_takeWhile_imp) ih
  | case3 => exact .nil
  | case4 => exact .nil

theorem braceGroups_append_after (cs : List Char) :
    (braceGroups cs).1 ++ (braceGroups cs).2 = cs := by
  fun_induction braceGroups cs with
  | case1 => rfl
  | case2 cs rest hclosing more after hmore ih =>
    rw [hmore] at ih
    simp only [List.cons_append, List.append_assoc]
    rw [ih, List.takeWhile_append_dropWhile, ← hclosing, List.takeWhile_append_dropWhile]
  | case3 => rfl
  | case4 => rfl

/-- A group is followed by the groups in what is left after the plain text behind it. -/
theorem braceGroups_closed (h : cs.dropWhile isPlain = '\x7d' :: rest) :
    braceGroups ('\x7b' :: cs) =
      ('\x7b' :: cs.takeWhile isPlain ++ '\x7d' :: rest.takeWhile isPlain ++
        (braceGroups (rest.dropWhile isPlain)).1, (braceGroups (rest.dropWhile isPlain)).2) := by
  rw [braceGroups, if_pos rfl]
  split
  case h_1 rest' hclosing =>
    obtain rfl : rest' = rest := (List.cons.inj (hclosing.symm.trans h)).2
    rfl
  case h_2 hnone => exact absurd h (hnone rest)

theorem braceGroups_unclosed (h : (cs.dropWhile isPlain).head? ≠ some '\x7d') :
    braceGroups ('\x7b' :: cs) = ([], '\x7b' :: cs) := by
  rw [braceGroups, if_pos rfl]
  split
  case h_1 rest hclosing => exact absurd (by rw [hclosing]; rfl) h
  case h_2 => rfl

theorem braceGroups_of_ne (h : c ≠ '\x7b') : braceGroups (c :: cs) = ([], c :: cs) := by
  rw [braceGroups, if_neg h]

/-- Groups are read again up to a closing brace. -/
theorem braceGroups_append (h : IsGroups groups) (tail : List Char) :
    braceGroups (groups ++ '\x7d' :: tail) = (groups, '\x7d' :: tail) := by
  induction h with
  | nil => exact braceGroups_of_ne (by decide)
  | @cons inside between more hinside hbetween hmore ih =>
    have hstop : ∀ c ∈ (more ++ '\x7d' :: tail).head?, isPlain c = false := by
      rcases hmore.eq_nil_or_cons with rfl | ⟨rest, rfl⟩ <;> (rintro c ⟨⟩; decide)
    have hclosing : (inside ++ '\x7d' :: (between ++ (more ++ '\x7d' :: tail))).dropWhile isPlain =
        '\x7d' :: (between ++ (more ++ '\x7d' :: tail)) :=
      dropWhile_append_stop hinside (by rintro c ⟨⟩; decide)
    have hinside' : (inside ++ '\x7d' :: (between ++ (more ++ '\x7d' :: tail))).takeWhile isPlain =
        inside :=
      takeWhile_append_stop hinside (by rintro c ⟨⟩; decide)
    have hgroups := braceGroups_closed hclosing
    rw [hinside', takeWhile_append_stop hbetween hstop, dropWhile_append_stop hbetween hstop, ih]
      at hgroups
    simpa only [List.cons_append, List.append_assoc] using hgroups

/-! ## Patterns -/

/-- A pattern: a run without blanks and braces, then groups. -/
structure IsPattern (start groups : List Char) : Prop where
  ne_nil : start ≠ []
  isPatternStart : ∀ c ∈ start, PathTemplate.isPatternStart c = true
  isGroups : IsGroups groups

theorem exists_of_pattern? {pattern : String} (h : pattern? cs = some (pattern, rest)) :
    ∃ blanks start groups gap, (∀ c ∈ blanks, Text.isBlank c = true) ∧ IsPattern start groups ∧
      (∀ c ∈ gap, Text.isBlank c = true) ∧ pattern = String.ofList (start ++ groups) ∧
      cs = blanks ++ (start ++ (groups ++ (gap ++ '\x7d' :: rest))) := by
  unfold pattern? at h
  simp only at h
  split at h
  case h_1 first start rest' hstart hclosing =>
    obtain ⟨rfl, rfl⟩ := Prod.mk.inj (Option.some.inj h)
    let text := (skipBlanks cs).dropWhile isPatternStart
    have hafter : (braceGroups text).2.takeWhile Text.isBlank ++ '\x7d' :: rest' =
        (braceGroups text).2 := by
      rw [← hclosing]
      exact List.takeWhile_append_dropWhile
    have htext : (skipBlanks cs).takeWhile isPatternStart ++ text = skipBlanks cs :=
      List.takeWhile_append_dropWhile
    have hcs : cs.takeWhile Text.isBlank ++ skipBlanks cs = cs := List.takeWhile_append_dropWhile
    refine ⟨cs.takeWhile Text.isBlank, (skipBlanks cs).takeWhile isPatternStart,
      (braceGroups text).1,
      (braceGroups text).2.takeWhile Text.isBlank, fun _ => List.mem_takeWhile_imp,
      ⟨by rw [hstart]; exact List.cons_ne_nil _ _,
        fun _ => List.mem_takeWhile_imp, isGroups_braceGroups _⟩,
      fun _ => List.mem_takeWhile_imp, rfl, ?_⟩
    rw [hafter, braceGroups_append_after, htext, hcs]
  case h_2 => cases h

/-- A pattern is read again before a closing brace, and before blanks unless it ends with a
group. -/
theorem pattern?_append {start : List Char} (h : IsPattern start groups)
    (hgap : ∀ c ∈ gap, Text.isBlank c = true) (hgroups : groups ≠ [] → gap = [])
    (tail : List Char) :
    pattern? (start ++ (groups ++ (gap ++ '\x7d' :: tail))) =
      some (String.ofList (start ++ groups), tail) := by
  have hclosing : skipBlanks (gap ++ '\x7d' :: tail) = '\x7d' :: tail :=
    skipBlanks_append hgap (by rintro c ⟨⟩; decide)
  have hafter : braceGroups (groups ++ (gap ++ '\x7d' :: tail)) = (groups, gap ++ '\x7d' :: tail) ∧
      ∀ c ∈ (groups ++ (gap ++ '\x7d' :: tail)).head?, isPatternStart c = false := by
    rcases h.isGroups.eq_nil_or_cons with rfl | ⟨rest, rfl⟩
    · rw [List.nil_append]
      refine ⟨?_, head?_blanks_append isPatternStart_of_isBlank hgap (by rintro c ⟨⟩; decide)⟩
      cases gap with
      | nil => exact braceGroups_of_ne (by decide)
      | cons blank gap =>
        refine braceGroups_of_ne ?_
        rintro rfl
        exact absurd (hgap _ List.mem_cons_self) (by decide)
    · rw [hgroups (List.cons_ne_nil _ _)]
      exact ⟨braceGroups_append h.isGroups tail, by rintro c ⟨⟩; decide⟩
  obtain ⟨hbraces, hstop⟩ := hafter
  obtain ⟨first, more, hfirst⟩ := List.exists_cons_of_ne_nil h.ne_nil
  have hblanks : ∀ text, skipBlanks (start ++ text) = start ++ text := by
    have hpatternStart := h.isPatternStart first (by rw [hfirst]; exact List.mem_cons_self)
    rw [isPatternStart, Bool.and_eq_true, Bool.not_eq_true'] at hpatternStart
    intro text
    rw [hfirst, List.cons_append, skipBlanks,
      List.dropWhile_cons_of_neg (by simp [hpatternStart.2])]
  simp only [pattern?, hblanks, takeWhile_append_stop h.isPatternStart hstop,
    dropWhile_append_stop h.isPatternStart hstop, hbraces, hclosing]
  rw [hfirst]
  rfl

/-- A pattern with blanks around it is read; blanks after a group belong to what is read. -/
theorem exists_pattern?_append {start before : List Char} (h : IsPattern start groups)
    (hbefore : ∀ c ∈ before, Text.isBlank c = true) (hgap : ∀ c ∈ gap, Text.isBlank c = true)
    (tail : List Char) :
    ∃ pattern, pattern? (before ++ (start ++ (groups ++ (gap ++ '\x7d' :: tail)))) =
      some (pattern, tail) := by
  have hskip : ∀ cs, pattern? (before ++ cs) = pattern? cs := by
    intro cs
    simp only [pattern?, skipBlanks, List.dropWhile_append_of_pos hbefore]
  rw [hskip]
  by_cases hgroups : groups = []
  · exact ⟨_, pattern?_append h hgap (fun hne => absurd hgroups hne) tail⟩
  · have hlonger : IsPattern start (groups ++ gap) :=
      ⟨h.ne_nil, h.isPatternStart,
        h.isGroups.append_plain hgroups fun c hc => isPlain_of_isBlank (hgap c hc)⟩
    have hread := pattern?_append hlonger (List.forall_mem_nil _) (fun _ => rfl) tail
    rw [List.nil_append, List.append_assoc] at hread
    exact ⟨_, hread⟩

/-! ## Parameters -/

/-- The name of a parameter: a word character, then word characters, dots and dashes. -/
def IsName (name : List Char) : Prop :=
  ∃ first more, name = first :: more ∧ Text.isWord first = true ∧ ∀ c ∈ more, isNamePart c = true

theorem IsName.ne_nil {name : List Char} (h : IsName name) : name ≠ [] := by
  obtain ⟨first, more, rfl, -⟩ := h
  exact List.cons_ne_nil _ _

theorem IsName.isNamePart {name : List Char} (h : IsName name) :
    ∀ c ∈ name, isNamePart c = true := by
  obtain ⟨first, more, rfl, hfirst, hmore⟩ := h
  exact List.forall_mem_cons.mpr ⟨isNamePart_of_isWord hfirst, hmore⟩

/-- The text of a parameter with a name and possibly a pattern: they stand between braces, with a
colon between them and blanks around each. -/
inductive IsParameter : List Char → String → Option String → Prop
  | bare {blanks name gap : List Char} (hblanks : ∀ c ∈ blanks, Text.isBlank c = true)
    (hname : IsName name) (hgap : ∀ c ∈ gap, Text.isBlank c = true) :
      IsParameter ('\x7b' :: (blanks ++ (name ++ (gap ++ ['\x7d'])))) (String.ofList name) none
  | restricted {blanks name gap before start groups after : List Char}
      (hblanks : ∀ c ∈ blanks, Text.isBlank c = true) (hname : IsName name)
      (hgap : ∀ c ∈ gap, Text.isBlank c = true) (hbefore : ∀ c ∈ before, Text.isBlank c = true)
      (hpattern : IsPattern start groups) (hafter : ∀ c ∈ after, Text.isBlank c = true) :
      IsParameter
        ('\x7b' :: (blanks ++
          (name ++ (gap ++ ':' :: (before ++ (start ++ (groups ++ (after ++ ['\x7d']))))))))
        (String.ofList name) (some (String.ofList (start ++ groups)))

/-- The text up to the end of a name and the blanks after it. -/
theorem exists_name_of_skipBlanks {more : List Char} {first : Char}
    (hskip : skipBlanks cs = first :: more) (hword : Text.isWord first = true) :
    ∃ blanks gap, (∀ c ∈ blanks, Text.isBlank c = true) ∧
      IsName (first :: more.takeWhile isNamePart) ∧
      (∀ c ∈ gap, Text.isBlank c = true) ∧ cs = blanks ++ (first :: more.takeWhile isNamePart ++
        (gap ++ skipBlanks (more.dropWhile isNamePart))) := by
  refine ⟨cs.takeWhile Text.isBlank, (more.dropWhile isNamePart).takeWhile Text.isBlank,
    fun _ => List.mem_takeWhile_imp, ⟨first, _, rfl, hword, fun _ => List.mem_takeWhile_imp⟩,
    fun _ => List.mem_takeWhile_imp, ?_⟩
  have hafter : (more.dropWhile isNamePart).takeWhile Text.isBlank ++
      skipBlanks (more.dropWhile isNamePart) = more.dropWhile isNamePart :=
    List.takeWhile_append_dropWhile
  rw [hafter, List.cons_append, List.takeWhile_append_dropWhile, ← hskip]
  exact List.takeWhile_append_dropWhile.symm

/-- What is read as a parameter has the text of one. -/
theorem isParameter_of_parameter? (h : parameter? cs = some (part, rest)) :
    ∃ text name pattern, part = .parameter name pattern ∧ IsParameter text name pattern ∧
      '\x7b' :: cs = text ++ rest := by
  unfold parameter? at h
  split at h
  case h_1 => cases h
  case h_2 first more hskip =>
    split at h
    case isFalse => cases h
    case isTrue hword =>
      obtain ⟨blanks, gap, hblanks, hname, hgap, hcs⟩ := exists_name_of_skipBlanks hskip hword
      simp only at h
      split at h
      case h_1 rest' hclosing =>
        obtain ⟨rfl, rfl⟩ := Prod.mk.inj (Option.some.inj h)
        refine ⟨_, _, _, rfl, .bare hblanks hname hgap, ?_⟩
        rw [hcs, hclosing]
        simp
      case h_2 after hcolon =>
        obtain ⟨⟨pattern, rest'⟩, hfound, heq⟩ := Option.map_eq_some_iff.mp h
        obtain ⟨rfl, rfl⟩ := Prod.mk.inj heq
        obtain ⟨before, start, groups, gap', hbefore, hpattern, hgap', rfl, rfl⟩ :=
          exists_of_pattern? hfound
        refine ⟨_, _, _, rfl, .restricted hblanks hname hgap hbefore hpattern hgap', ?_⟩
        rw [hcs, hcolon]
        simp
      case h_3 => cases h

section Names

variable {blanks name gap : List Char} (hblanks : ∀ c ∈ blanks, Text.isBlank c = true)
  (hname : IsName name)
  (hgap : ∀ c ∈ gap, Text.isBlank c = true)

include hblanks hname hgap

/-- How a name is read before a character that ends it. -/
theorem name_append (stop : Char) (hstop : isNamePart stop = false)
    (hstop' : Text.isBlank stop = false) (tail : List Char) :
    ∃ first more, name = first :: more ∧ Text.isWord first = true ∧
      skipBlanks (blanks ++ (name ++ (gap ++ stop :: tail))) =
        first :: (more ++ (gap ++ stop :: tail)) ∧
      (more ++ (gap ++ stop :: tail)).takeWhile isNamePart = more ∧
      skipBlanks ((more ++ (gap ++ stop :: tail)).dropWhile isNamePart) = stop :: tail := by
  obtain ⟨first, more, rfl, hfirst, hmore⟩ := hname
  have hend : ∀ c ∈ (gap ++ stop :: tail).head?, isNamePart c = false :=
    head?_blanks_append isNamePart_of_isBlank hgap (by rintro c ⟨⟩; exact hstop)
  refine ⟨first, more, rfl, hfirst, ?_, takeWhile_append_stop hmore hend, ?_⟩
  · refine skipBlanks_append hblanks ?_
    rintro c ⟨⟩
    exact Text.isBlank_eq_false_of_isWord hfirst
  · rw [dropWhile_append_stop hmore hend]
    exact skipBlanks_append hgap (by rintro c ⟨⟩; exact hstop')

theorem parameter?_closing (tail : List Char) :
    parameter? (blanks ++ (name ++ (gap ++ '\x7d' :: tail))) =
      some (.parameter (String.ofList name) none, tail) := by
  obtain ⟨first, more, rfl, hfirst, hskip, htake, hafter⟩ :=
    name_append hblanks hname hgap '\x7d' (by decide +kernel) (by decide) tail
  unfold parameter?
  simp only [hskip, hfirst, if_true, htake, hafter]

theorem parameter?_colon (tail : List Char) :
    parameter? (blanks ++ (name ++ (gap ++ ':' :: tail))) =
      (pattern? tail).map fun (pattern, rest) =>
        (.parameter (String.ofList name) (some pattern), rest) := by
  obtain ⟨first, more, rfl, hfirst, hskip, htake, hafter⟩ :=
    name_append hblanks hname hgap ':' (by decide +kernel) (by decide) tail
  unfold parameter?
  simp only [hskip, hfirst, if_true, htake, hafter]

end Names

/-- The text of a parameter is read as one, up to its end, whatever follows it. -/
theorem IsParameter.exists_parameter? {text : List Char} {name : String} {pattern : Option String}
    (h : IsParameter text name pattern) (tail : List Char) :
    ∃ cs pattern', text ++ tail = '\x7b' :: cs ∧
      parameter? cs = some (.parameter name pattern', tail) := by
  cases h with
  | @bare blanks name gap hblanks hname hgap =>
    refine ⟨blanks ++ (name ++ (gap ++ '\x7d' :: tail)), none, by simp, ?_⟩
    exact parameter?_closing hblanks hname hgap tail
  | @restricted blanks name gap before start groups after hblanks hname hgap hbefore
      hpattern hafter =>
    obtain ⟨pattern', hread⟩ := exists_pattern?_append hpattern hbefore hafter tail
    refine ⟨blanks ++
      (name ++ (gap ++ ':' :: (before ++ (start ++ (groups ++ (after ++ '\x7d' :: tail)))))),
      some pattern', by simp, ?_⟩
    rw [parameter?_colon hblanks hname hgap, hread]
    rfl

/-! ## Parameters between braces -/

/-- What the text after an opening brace consists of if it is read as a parameter, as far as its
braces matter: plain text with the name, then possibly the groups of a pattern, and the closing
brace. -/
inductive Reads : List Char → PathPart → List Char → Prop
  | bare {head name rest : List Char} (hhead : ∀ c ∈ head, isPlain c = true) (hname : name ≠ [])
      (hparts : ∀ c ∈ name, isNamePart c = true) :
      Reads (head ++ '\x7d' :: rest) (.parameter (String.ofList name) none) rest
  | restricted {head name start groups gap rest : List Char} (hhead : ∀ c ∈ head, isPlain c = true)
      (hname : name ≠ []) (hparts : ∀ c ∈ name, isNamePart c = true)
        (hpattern : IsPattern start groups)
      (hgap : ∀ c ∈ gap, isPlain c = true) :
      Reads (head ++ (groups ++ (gap ++ '\x7d' :: rest)))
        (.parameter (String.ofList name) (some (String.ofList (start ++ groups)))) rest

theorem Reads.exists_parameter (h : Reads cs part rest) :
    ∃ name pattern, part = .parameter name pattern ∧ name ≠ "" ∧
      (∀ c ∈ name.toList, isNamePart c = true) ∧
      ∀ text ∈ pattern, ∃ start groups, IsPattern start groups ∧
        text = String.ofList (start ++ groups) := by
  cases h with
  | bare _ hname hparts =>
    refine ⟨_, _, rfl, by simpa using hname, by simpa using hparts, ?_⟩
    rintro text ⟨⟩
  | restricted _ hname hparts hpattern _ =>
    refine ⟨_, _, rfl, by simpa using hname, by simpa using hparts, ?_⟩
    rintro text ⟨⟩
    exact ⟨_, _, hpattern, rfl⟩

theorem Reads.suffix {cs rest : List Char} {part : PathPart} (h : Reads cs part rest) :
    rest <:+ cs := by
  cases h with
  | @bare head => exact ⟨head ++ ['\x7d'], by simp⟩
  | @restricted head _ _ groups gap => exact ⟨head ++ groups ++ gap ++ ['\x7d'], by simp⟩

theorem reads_of_parameter? (h : parameter? cs = some (part, rest)) : Reads cs part rest := by
  obtain ⟨text, name, pattern, rfl, hparameter, htext⟩ := isParameter_of_parameter? h
  have hblank : ∀ blanks : List Char, (∀ c ∈ blanks, Text.isBlank c = true) →
      ∀ c ∈ blanks, isPlain c = true := fun _ hblanks c hc => isPlain_of_isBlank (hblanks c hc)
  cases hparameter with
  | @bare blanks name gap hblanks hname hgap =>
    have hhead : ∀ c ∈ blanks ++ (name ++ gap), isPlain c = true := by
      simp only [List.forall_mem_append]
      exact ⟨hblank _ hblanks, fun c hc => isPlain_of_isNamePart (hname.isNamePart c hc),
        hblank _ hgap⟩
    obtain rfl : cs = blanks ++ (name ++ gap) ++ '\x7d' :: rest := by
      simpa using (List.cons.inj htext).2
    exact .bare hhead hname.ne_nil hname.isNamePart
  | @restricted blanks name gap before start groups after hblanks hname hgap hbefore
      hpattern hafter =>
    have hhead : ∀ c ∈ blanks ++ (name ++ (gap ++ ':' :: (before ++ start))), isPlain c = true := by
      simp only [List.forall_mem_append, List.forall_mem_cons]
      exact ⟨hblank _ hblanks, fun c hc => isPlain_of_isNamePart (hname.isNamePart c hc),
        hblank _ hgap,
        by decide, hblank _ hbefore,
        fun c hc => isPlain_of_isPatternStart (hpattern.isPatternStart c hc)⟩
    obtain rfl : cs = blanks ++ (name ++ (gap ++ ':' :: (before ++ start))) ++
        (groups ++ (after ++ '\x7d' :: rest)) := by
      simpa using (List.cons.inj htext).2
    exact .restricted hhead hname.ne_nil hname.isNamePart hpattern (hblank _ hafter)

/-- A pattern as it stands behind a name, with the colon. -/
def patternText : Option String → List Char
  | none => []
  | some pattern => ':' :: pattern.toList

/-- A parameter is read again from a name made of word characters and a pattern. -/
theorem parameter?_append {first : Char} {more : List Char}
    (hwords : ∀ c ∈ first :: more, Text.isWord c = true) {pattern : Option String}
    (hpattern : ∀ text ∈ pattern, ∃ start groups, IsPattern start groups ∧
      text = String.ofList (start ++ groups)) (tail : List Char) :
    parameter? (first :: more ++ (patternText pattern ++ '\x7d' :: tail)) =
      some (.parameter (String.ofList (first :: more)) pattern, tail) := by
  have hname : IsName (first :: more) := ⟨first, more, rfl, hwords first List.mem_cons_self,
    fun c hc => isNamePart_of_isWord (hwords c (List.mem_cons_of_mem _ hc))⟩
  have hblanks : ∀ c ∈ ([] : List Char), Text.isBlank c = true := List.forall_mem_nil _
  cases pattern with
  | none => exact parameter?_closing hblanks hname hblanks tail
  | some text =>
    obtain ⟨start, groups, hispattern, rfl⟩ := hpattern text rfl
    have hread := pattern?_append hispattern hblanks (fun _ => rfl) tail
    rw [List.nil_append, ← List.append_assoc] at hread
    have hcolon := parameter?_colon hblanks hname hblanks (start ++ groups ++ '\x7d' :: tail)
    rw [hread] at hcolon
    rw [patternText, String.toList_ofList]
    exact hcolon

/-! ## Parts -/

theorem partsFrom_of_parameter?_eq_some {cs rest : List Char} {part : PathPart}
    (h : parameter? cs = some (part, rest)) (literal : List Char) :
    partsFrom literal ('\x7b' :: cs) =
      literalPart literal.reverse ++ part :: partsFrom [] rest := by
  rw [partsFrom, if_pos rfl]
  split
  case h_1 part' rest' hfound =>
    obtain ⟨rfl, rfl⟩ := Prod.mk.inj (Option.some.inj (hfound.symm.trans h))
    rfl
  case h_2 hnone => rw [h] at hnone; cases hnone

theorem partsFrom_of_parameter?_eq_none (h : parameter? cs = none) (literal : List Char) :
    partsFrom literal ('\x7b' :: cs) = partsFrom ('\x7b' :: literal) cs := by
  rw [partsFrom, if_pos rfl]
  split
  case h_1 hfound => rw [h] at hfound; cases hfound
  case h_2 => rfl

theorem partsFrom_of_ne (h : c ≠ '\x7b') (literal cs : List Char) :
    partsFrom literal (c :: cs) = partsFrom (c :: literal) cs := by
  rw [partsFrom, if_neg h]

end Typings.PathTemplate
