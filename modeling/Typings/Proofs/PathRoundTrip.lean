import Typings.Proofs.Service.Methods
import Typings.Proofs.Service.PathTemplate

/-!
# Formatted paths

A path is written from its template with the names of its parameters made identifiers, and without
the blanks around names and patterns. Reading this text gives the template with these names, if they
are names of parameters themselves. Literal text is not taken for a parameter then, although it may
hold braces: the braces of the two texts stand for the same groups.

The names of parameters follow an older Unicode version than identifiers. So there are two letters
that become no word characters when a dash before them is dropped; they are the only ones.

## Main definitions

* `PathTemplate.names`, `PathTemplate.repaired`: the names of the parameters, and the template with
  them made identifiers.
* `PathTemplate.written`: the text that is written from the template of a text.
* `PathTemplate.Closes`: a text is groups, blanks and a closing brace, whatever follows.

## Main results

* `PathTemplate.partsFrom_written`: the parts of the written text.
* `PathTemplate.parse_format_iff`: when the template is read again.
-/

namespace Typings

/-- The part with the name of a parameter made an identifier. -/
def PathPart.repaired : PathPart → PathPart
  | literal text => literal text
  | parameter name pattern => parameter (Identifier.repair name) pattern

def PathPart.chars (part : PathPart) : List Char :=
  (PathTemplate.formatPart "\x7b" "\x7d" true part).toList

@[simp]
theorem PathPart.chars_literal (text : String) : (literal text).chars = text.toList := rfl

@[simp]
theorem PathPart.chars_parameter (name : String) (pattern : Option String) :
    (parameter name pattern).chars =
      '\x7b' :: ((Identifier.repair name).toList ++
        (PathTemplate.patternText pattern ++ ['\x7d'])) := by
  cases pattern <;> simp [chars, PathTemplate.formatPart, PathTemplate.patternText]

namespace PathTemplate

def names (template : PathTemplate) : List String :=
  template.parts.filterMap (·.parameter?)

/-- The template with the names of its parameters made identifiers. -/
def repaired (template : PathTemplate) : PathTemplate :=
  ⟨template.parts.map (·.repaired)⟩

/-! ## Written texts -/

/-- What is written from the template of a text. -/
def written (cs : List Char) : List Char :=
  (partsFrom [] cs).flatMap (·.chars)

theorem toList_format_parse (path : String) :
    ((parse path).format "\x7b" "\x7d" true).toList = written path.toList := by
  rw [format, String.toList_join, List.flatMap_map]
  rfl

theorem flatMap_chars_literalPart (text : List Char) :
    (literalPart text).flatMap (·.chars) = text := by
  unfold literalPart
  split
  case isTrue hempty => exact (List.isEmpty_iff.mp hempty).symm
  case isFalse => simp

theorem flatMap_chars_partsFrom_append (literal before cs : List Char) :
    (partsFrom (literal ++ before) cs).flatMap (·.chars) =
      before.reverse ++ (partsFrom literal cs).flatMap (·.chars) := by
  fun_induction partsFrom literal cs with
  | case1 literal => simp [partsFrom, flatMap_chars_literalPart]
  | case2 literal cs part rest hfound ih =>
    rw [partsFrom_of_parameter?_eq_some hfound]
    simp [flatMap_chars_literalPart]
  | case3 literal cs hnone ih =>
    rw [partsFrom_of_parameter?_eq_none hnone]
    exact ih
  | case4 literal c cs hc ih =>
    rw [partsFrom_of_ne hc]
    exact ih

theorem flatMap_chars_partsFrom (literal cs : List Char) :
    (partsFrom literal cs).flatMap (·.chars) = literal.reverse ++ written cs :=
  flatMap_chars_partsFrom_append [] literal cs

@[simp]
theorem written_nil : written [] = [] := by
  simp [written, partsFrom, literalPart]

variable {cs rest : List Char} {name : String}

theorem written_of_parameter?_eq_some {part : PathPart} (h : parameter? cs = some (part, rest)) :
    written ('\x7b' :: cs) = part.chars ++ written rest := by
  rw [written, partsFrom_of_parameter?_eq_some h]
  rfl

theorem written_of_parameter?_eq_none (h : parameter? cs = none) :
    written ('\x7b' :: cs) = '\x7b' :: written cs := by
  rw [written, partsFrom_of_parameter?_eq_none h, flatMap_chars_partsFrom]
  rfl

theorem written_of_ne {c : Char} (h : c ≠ '\x7b') (cs : List Char) :
    written (c :: cs) = c :: written cs := by
  rw [written, partsFrom_of_ne h, flatMap_chars_partsFrom]
  rfl

/-- What is written for a text starts as the text does. -/
theorem head?_written (cs : List Char) : (written cs).head? = cs.head? := by
  cases cs with
  | nil => simp
  | cons c cs =>
    by_cases hc : c = '\x7b'
    · subst hc
      cases hfound : parameter? cs with
      | none => rw [written_of_parameter?_eq_none hfound, List.head?_cons, List.head?_cons]
      | some found =>
        obtain ⟨part, rest⟩ := found
        obtain ⟨name, pattern, rfl, -⟩ := (reads_of_parameter? hfound).exists_parameter
        rw [written_of_parameter?_eq_some hfound, PathPart.chars_parameter, List.cons_append,
          List.head?_cons, List.head?_cons]
    · rw [written_of_ne hc, List.head?_cons, List.head?_cons]

section Spans

-- such a span ends before an opening brace at the latest, and up to there nothing changes
variable {p : Char → Bool} (hp : p '\x7b' = false)
include hp

theorem ne_brace_of_span {c : Char} (hc : p c = true) : c ≠ '\x7b' := by
  rintro rfl
  rw [hp] at hc
  cases hc

theorem takeWhile_written (cs : List Char) : (written cs).takeWhile p = cs.takeWhile p := by
  induction cs with
  | nil => simp
  | cons c cs ih =>
    by_cases hc : p c = true
    · rw [written_of_ne (ne_brace_of_span hp hc), List.takeWhile_cons_of_pos hc,
        List.takeWhile_cons_of_pos hc, ih]
    · obtain ⟨tail, htail⟩ := List.head?_eq_some_iff.mp (head?_written (c :: cs))
      rw [htail, List.takeWhile_cons_of_neg hc, List.takeWhile_cons_of_neg hc]

theorem dropWhile_written (cs : List Char) :
    (written cs).dropWhile p = written (cs.dropWhile p) := by
  induction cs with
  | nil => simp
  | cons c cs ih =>
    by_cases hc : p c = true
    · rw [written_of_ne (ne_brace_of_span hp hc), List.dropWhile_cons_of_pos hc,
        List.dropWhile_cons_of_pos hc, ih]
    · obtain ⟨tail, htail⟩ := List.head?_eq_some_iff.mp (head?_written (c :: cs))
      rw [htail, List.dropWhile_cons_of_neg hc, List.dropWhile_cons_of_neg hc, htail]

end Spans

theorem skipBlanks_written (cs : List Char) : skipBlanks (written cs) = written (skipBlanks cs) :=
  dropWhile_written (by decide) cs

/-! ## Groups -/

theorem isPlain_of_mem_repair {c : Char} (h : c ∈ (Identifier.repair name).toList) :
    isPlain c = true :=
  isPlain_of_class (by decide) (by decide) (Identifier.isPart_of_mem_repair h)

/-- The first brace of a parameter and that of what is written for it both end the parameter, or
both open a group. -/
theorem Reads.dropWhile_isPlain {part : PathPart} (h : Reads cs part rest) (tail : List Char) :
    ∃ body, part.chars = '\x7b' :: body ∧
      (cs.dropWhile isPlain = '\x7d' :: rest ∧ (body ++ tail).dropWhile isPlain = '\x7d' :: tail ∨
        (cs.dropWhile isPlain).head? = some '\x7b' ∧
          ((body ++ tail).dropWhile isPlain).head? = some '\x7b') := by
  have hrepair : ∀ name, ∀ c ∈ (Identifier.repair name).toList, isPlain c = true :=
    fun name c => isPlain_of_mem_repair
  cases h with
  | @bare head name rest hhead _ _ =>
    refine ⟨_, PathPart.chars_parameter _ _,
      .inl ⟨dropWhile_append_stop hhead (by rintro c ⟨⟩; decide), ?_⟩⟩
    rw [List.append_assoc]
    exact dropWhile_append_stop (hrepair _) (by rintro c ⟨⟩; decide)
  | @restricted head name start groups gap rest hhead _ _ hpattern hgap =>
    have hstart : ∀ c ∈ (Identifier.repair (String.ofList name)).toList ++ ':' :: start,
        isPlain c = true := by
      intro c hc
      rcases List.mem_append.mp hc with hc | hc
      · exact hrepair _ c hc
      · rcases List.mem_cons.mp hc with rfl | hc
        · decide
        · exact isPlain_of_isPatternStart (hpattern.isPatternStart c hc)
    have hbody : (Identifier.repair (String.ofList name)).toList ++
        (patternText (some (String.ofList (start ++ groups))) ++ ['\x7d']) ++ tail =
          (Identifier.repair (String.ofList name)).toList ++ ':' :: start ++
            (groups ++ '\x7d' :: tail) := by
      simp [patternText]
    refine ⟨_, PathPart.chars_parameter _ _, ?_⟩
    rw [hbody]
    rcases hpattern.isGroups.eq_nil_or_cons with rfl | ⟨more, rfl⟩
    · have hhead' : ∀ c ∈ head ++ gap, isPlain c = true := fun c hc =>
        (List.mem_append.mp hc).elim (hhead c) (hgap c)
      rw [List.nil_append, ← List.append_assoc]
      exact .inl ⟨dropWhile_append_stop hhead' (by rintro c ⟨⟩; decide),
        dropWhile_append_stop hstart (by rintro c ⟨⟩; decide)⟩
    · rw [dropWhile_append_stop hhead (by rintro c ⟨⟩; decide),
        dropWhile_append_stop hstart (by rintro c ⟨⟩; decide)]
      exact .inr ⟨rfl, rfl⟩

/-- The first brace after an opening one closes it in what is written if it does in the text, and
the same is written after it then. -/
theorem exists_written_brace (cs : List Char) : ∃ text, written ('\x7b' :: cs) = '\x7b' :: text ∧
    (∀ rest, cs.dropWhile isPlain = '\x7d' :: rest →
      text.dropWhile isPlain = '\x7d' :: written rest) ∧
    ((cs.dropWhile isPlain).head? ≠ some '\x7d' →
      (text.dropWhile isPlain).head? ≠ some '\x7d') := by
  cases hfound : parameter? cs with
  | none =>
    refine ⟨written cs, written_of_parameter?_eq_none hfound, fun rest hrest => ?_, fun hopen => ?_⟩
    · rw [dropWhile_written (by decide), hrest, written_of_ne (by decide)]
    · rwa [dropWhile_written (by decide), head?_written]
  | some found =>
    obtain ⟨part, after⟩ := found
    obtain ⟨body, hbody, hbrace⟩ := (reads_of_parameter? hfound).dropWhile_isPlain (written after)
    refine ⟨body ++ written after, by rw [written_of_parameter?_eq_some hfound, hbody]; rfl, ?_, ?_⟩
    · intro rest hrest
      rcases hbrace with ⟨hclosing, hbody'⟩ | ⟨hopening, -⟩
      · rw [hbody', (List.cons.inj (hrest.symm.trans hclosing)).2]
      · rw [hrest] at hopening
        exact absurd (Option.some.inj hopening) (by decide)
    · intro hopen
      rcases hbrace with ⟨hclosing, -⟩ | ⟨-, hopening⟩
      · rw [hclosing] at hopen
        exact absurd rfl hopen
      · rw [hopening]
        decide

/-- Whether a text starts with groups in braces, blanks and a closing brace. -/
def Closes (cs : List Char) : Prop :=
  (skipBlanks (braceGroups cs).2).head? = some '\x7d'

theorem closes_of_closed (h : cs.dropWhile isPlain = '\x7d' :: rest) :
    Closes ('\x7b' :: cs) ↔ Closes (rest.dropWhile isPlain) := by
  rw [Closes, braceGroups_closed h, Closes]

theorem not_closes_of_unclosed (h : (cs.dropWhile isPlain).head? ≠ some '\x7d') :
    ¬Closes ('\x7b' :: cs) := by
  rw [Closes, braceGroups_unclosed h, skipBlanks, List.dropWhile_cons_of_neg (by decide)]
  exact fun h => absurd (Option.some.inj h) (by decide)

/-- What is written for a text has the same groups as the text. -/
theorem closes_written (cs : List Char) : Closes (written cs) ↔ Closes cs := by
  fun_induction braceGroups cs with
  | case1 => rw [written_nil]
  | case2 cs rest hclosing more after hmore ih =>
    obtain ⟨text, htext, hclosed, -⟩ := exists_written_brace cs
    rw [htext, closes_of_closed (hclosed rest hclosing), closes_of_closed hclosing,
      dropWhile_written (by decide), ih]
  | case3 cs hunclosed =>
    have hhead : (cs.dropWhile isPlain).head? ≠ some '\x7d' := fun h => by
      obtain ⟨rest, hrest⟩ := List.head?_eq_some_iff.mp h
      exact hunclosed rest hrest
    obtain ⟨text, htext, -, hopen⟩ := exists_written_brace cs
    rw [htext]
    exact iff_of_false (not_closes_of_unclosed (hopen hhead)) (not_closes_of_unclosed hhead)
  | case4 c cs hc =>
    rw [Closes, Closes, written_of_ne hc, braceGroups_of_ne hc, braceGroups_of_ne hc,
      ← written_of_ne hc, skipBlanks_written, head?_written]

/-! ## Parameters of written texts -/

theorem isSome_pattern?_iff (cs : List Char) : (pattern? cs).isSome = true ↔
    (skipBlanks cs).takeWhile isPatternStart ≠ [] ∧
      Closes ((skipBlanks cs).dropWhile isPatternStart) := by
  unfold pattern? Closes
  simp only
  split
  case h_1 hstart hclosing => simp [hstart, hclosing]
  case h_2 hnone =>
    refine iff_of_false (by simp) fun ⟨hstart, hcloses⟩ => ?_
    obtain ⟨first, more, hfirst⟩ := List.exists_cons_of_ne_nil hstart
    obtain ⟨rest, hrest⟩ := List.head?_eq_some_iff.mp hcloses
    exact hnone first more rest hfirst hrest

theorem isSome_pattern?_written (cs : List Char) :
    (pattern? (written cs)).isSome = (pattern? cs).isSome := by
  rw [Bool.eq_iff_iff, isSome_pattern?_iff, isSome_pattern?_iff, skipBlanks_written,
    takeWhile_written (by decide), dropWhile_written (by decide), closes_written]

/-- What is written for a text is read as a parameter exactly if the text is. -/
theorem isSome_parameter?_written (cs : List Char) :
    (parameter? (written cs)).isSome = (parameter? cs).isSome := by
  unfold parameter?
  rw [skipBlanks_written]
  cases skipBlanks cs with
  | nil => rw [written_nil]
  | cons first more =>
    by_cases hfirst : first = '\x7b'
    · obtain ⟨text, htext, -⟩ := exists_written_brace more
      rw [hfirst, htext]
      simp only [show Text.isWord '\x7b' = false by decide +kernel]
      rfl
    · rw [written_of_ne hfirst]
      simp only [takeWhile_written isNamePart_brace, dropWhile_written isNamePart_brace,
        skipBlanks_written]
      split
      case isFalse => rfl
      case isTrue =>
        cases skipBlanks (more.dropWhile isNamePart) with
        | nil => rw [written_nil]
        | cons stop after =>
          by_cases hclosing : stop = '\x7d'
          · rw [hclosing, written_of_ne (by decide)]
            rfl
          · by_cases hcolon : stop = ':'
            · rw [hcolon, written_of_ne (by decide)]
              simp only [Option.isSome_map, isSome_pattern?_written]
            · obtain ⟨tail, htail⟩ := List.head?_eq_some_iff.mp (head?_written (stop :: after))
              rw [htail]
              simp [hclosing, hcolon]

/-! ## Names -/

theorem isWord_of_isNamePart {c : Char} (hname : isNamePart c = true)
    (hpart : Identifier.isPart c = true) : Text.isWord c = true := by
  simp only [isNamePart, Bool.or_eq_true, decide_eq_true_eq] at hname
  rcases hname with (hword | rfl) | rfl
  · exact hword
  · exact absurd hpart (by decide)
  · exact absurd hpart (by decide)

/-- The upper-case form of a letter after a dash stays in the identifier if it can start one. -/
theorem mem_repair_of_dashed {letter form : Char} (hdashed : ['-', letter] <:+: name.toList)
    (hletter : letter ≠ '-') (hform : form ∈ Text.upper letter)
    (hstart : Identifier.isStart form = true) : form ∈ (Identifier.repair name).toList := by
  rw [Identifier.repair, String.toList_ofList]
  exact Identifier.mem_keepValid (Identifier.mem_joinDashed hletter hdashed hform) hstart

/-- The identifier made of a name of a parameter consists of word characters unless one of two
letters stands after a dash. -/
theorem isWord_repair_iff (hname : ∀ c ∈ name.toList, isNamePart c = true) :
    (∀ c ∈ (Identifier.repair name).toList, Text.isWord c = true) ↔
      ¬['-', '\ua7d3'] <:+: name.toList ∧ ¬['-', '\ua7d5'] <:+: name.toList := by
  constructor
  · intro hwords
    constructor <;> intro hdashed
    · have hmem : '\ua7d2' ∈ (Identifier.repair name).toList :=
        mem_repair_of_dashed hdashed (by decide) (by decide +kernel) (by decide +kernel)
      exact absurd (hwords _ hmem) (by decide +kernel)
    · have hmem : '\ua7d4' ∈ (Identifier.repair name).toList :=
        mem_repair_of_dashed hdashed (by decide) (by decide +kernel) (by decide +kernel)
      exact absurd (hwords _ hmem) (by decide +kernel)
  · rintro ⟨hfirst, hsecond⟩ c hc
    rw [Identifier.repair, String.toList_ofList] at hc
    obtain ⟨hjoined, hpart⟩ := Identifier.of_mem_keepValid hc
    rcases Identifier.of_mem_joinDashed hjoined with hmem | ⟨d, hd, hdashed, hupper⟩
    · exact isWord_of_isNamePart (hname c hmem) hpart
    · have hletters : d ≠ '\ua7d3' ∧ d ≠ '\ua7d5' := by
        constructor <;> rintro rfl
        · exact hfirst hdashed
        · exact hsecond hdashed
      have hdname := hname d (hdashed.subset (by simp))
      simp only [isNamePart, Bool.or_eq_true, decide_eq_true_eq] at hdname
      rcases hdname with (hword | rfl) | rfl
      · exact Text.isWord_of_mem_upper hword hletters hupper hpart
      · have hdot : Text.upper '.' = ['.'] := by decide +kernel
        rw [hdot, List.mem_singleton] at hupper
        rw [hupper] at hpart
        exact absurd hpart (by decide)
      · exact absurd rfl hd

theorem filterMap_parameter?_literalPart_append (text : List Char) (parts : List PathPart) :
    (literalPart text ++ parts).filterMap (·.parameter?) = parts.filterMap (·.parameter?) := by
  unfold literalPart
  split <;> rfl

/-- The parameters that are read have names of their form. -/
theorem isNamePart_of_mem_partsFrom {literal : List Char}
    (h : name ∈ (partsFrom literal cs).filterMap (·.parameter?)) :
    name ≠ "" ∧ ∀ c ∈ name.toList, isNamePart c = true := by
  fun_induction partsFrom literal cs with
  | case1 literal =>
    rw [← List.append_nil (literalPart _), filterMap_parameter?_literalPart_append] at h
    cases h
  | case2 literal cs part rest hfound ih =>
    obtain ⟨name', pattern, rfl, hne, hname, -⟩ := (reads_of_parameter? hfound).exists_parameter
    rw [filterMap_parameter?_literalPart_append] at h
    rcases List.mem_cons.mp h with rfl | h
    · exact ⟨hne, hname⟩
    · exact ih h
  | case3 literal cs hnone ih => exact ih h
  | case4 literal c cs hc ih => exact ih h

theorem names_repaired (template : PathTemplate) :
    template.repaired.names = template.names.map Identifier.repair := by
  rw [names, names, repaired, List.filterMap_map, List.map_filterMap]
  refine List.filterMap_congr fun part _ => ?_
  cases part <;> rfl

/-! ## Templates of written texts -/

theorem map_repaired_literalPart (text : List Char) :
    (literalPart text).map (·.repaired) = literalPart text := by
  unfold literalPart
  split <;> rfl

/-- A parameter is read again from what is written for it if its name is made of word characters
then. -/
theorem parameter?_written {pattern : Option String}
    (hfound : parameter? cs = some (.parameter name pattern, rest))
    (hne : Identifier.repair name ≠ "")
    (hwords : ∀ c ∈ (Identifier.repair name).toList, Text.isWord c = true) (tail : List Char) :
    parameter? ((Identifier.repair name).toList ++ (patternText pattern ++ '\x7d' :: tail)) =
      some (.parameter (Identifier.repair name) pattern, tail) := by
  obtain ⟨name', pattern', heq, -, -, hpattern⟩ := (reads_of_parameter? hfound).exists_parameter
  obtain ⟨rfl, rfl⟩ := PathPart.parameter.inj heq
  have hrepair := (Identifier.repair name).ofList_toList
  generalize (Identifier.repair name).toList = chars at hwords hrepair
  cases chars with
  | nil => exact absurd hrepair.symm hne
  | cons first more => rw [parameter?_append hwords hpattern, hrepair]

/-- The parts of what is written for a text are those of the text with other names. -/
theorem partsFrom_written {literal : List Char}
    (h : ∀ name ∈ (partsFrom literal cs).filterMap (·.parameter?), Identifier.repair name ≠ "" ∧
      ∀ c ∈ (Identifier.repair name).toList, Text.isWord c = true) :
    partsFrom literal (written cs) = (partsFrom literal cs).map (·.repaired) := by
  fun_induction partsFrom literal cs with
  | case1 literal => rw [written_nil, partsFrom, map_repaired_literalPart]
  | case2 literal cs part rest hfound ih =>
    obtain ⟨name, pattern, rfl, -⟩ := (reads_of_parameter? hfound).exists_parameter
    rw [filterMap_parameter?_literalPart_append] at h
    obtain ⟨⟨hne, hwords⟩, hrest⟩ := List.forall_mem_cons.mp h
    rw [written_of_parameter?_eq_some hfound, PathPart.chars_parameter]
    simp only [List.cons_append, List.append_assoc, List.nil_append]
    rw [partsFrom_of_parameter?_eq_some (parameter?_written hfound hne hwords _), ih hrest,
      List.map_append, map_repaired_literalPart]
    rfl
  | case3 literal cs hnone ih =>
    have hnone' : parameter? (written cs) = none := by
      rw [← Option.not_isSome_iff_eq_none, isSome_parameter?_written, hnone]
      exact Bool.false_ne_true
    rw [written_of_parameter?_eq_none hnone, partsFrom_of_parameter?_eq_none hnone', ih h]
  | case4 literal c cs hc ih => rw [written_of_ne hc, partsFrom_of_ne hc, ih h]

/-- The text that a path is formatted as has the template of the path, with the names of the
parameters made identifiers, exactly if these are left with something and do not hold one of two
letters after a dash. -/
theorem parse_format_iff (path : String) :
    parse ((parse path).format "\x7b" "\x7d" true) = (parse path).repaired ↔
      ∀ name ∈ (parse path).names, Identifier.repair name ≠ "" ∧
        ¬['-', '\ua7d3'] <:+: name.toList ∧ ¬['-', '\ua7d5'] <:+: name.toList := by
  constructor
  · intro hread name hname
    have hmem :
        Identifier.repair name ∈ (parse ((parse path).format "\x7b" "\x7d" true)).names := by
      rw [hread, names_repaired]
      exact List.mem_map_of_mem hname
    obtain ⟨hne, hparts⟩ := isNamePart_of_mem_partsFrom hmem
    refine ⟨hne, (isWord_repair_iff (isNamePart_of_mem_partsFrom hname).2).mp fun c hc => ?_⟩
    have hpart : Identifier.isPart c = true := by
      rw [Identifier.repair, String.toList_ofList] at hc
      exact (Identifier.of_mem_keepValid hc).2
    exact isWord_of_isNamePart (hparts c hc) hpart
  · intro hnames
    have hwritten : partsFrom [] (written path.toList) =
        (partsFrom [] path.toList).map (·.repaired) := by
      refine partsFrom_written fun name hname => ?_
      obtain ⟨hne, hletters⟩ := hnames name hname
      exact ⟨hne, (isWord_repair_iff (isNamePart_of_mem_partsFrom hname).2).mpr hletters⟩
    rw [parse, toList_format_parse, hwritten]
    rfl

/-- Blanks around a name are dropped and those in a pattern with groups are not; other braces
stay. -/
example : (parse "\x7b\x7b user-id : [0-9]\x7b2\x7d \x7d/\x7bx").format "\x7b" "\x7d" true =
    "\x7b\x7buserId:[0-9]\x7b2\x7d \x7d/\x7bx" := by
  decide +kernel

/-- A letter after a dash can turn a parameter into literal text, although its name becomes an
identifier that is not empty. -/
theorem parse_format_dashed_ne :
    let path := "\x7ba-\ua7d3\x7d"
    (parse path).names = ["a-\ua7d3"] ∧ Identifier.repair "a-\ua7d3" = "a\ua7d2" ∧
      parse ((parse path).format "\x7b" "\x7d" true) ≠ (parse path).repaired := by
  decide +kernel

end PathTemplate

end Typings
