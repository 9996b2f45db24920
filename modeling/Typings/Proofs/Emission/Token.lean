import Typings.Emission.Quoted
import Typings.Proofs.Decimal.Shortest

/-!
# Tokens of generated code

Generated code is read as tokens: words, literals and marks. Which letters make up words beyond the
first 128 characters differs between the versions of Unicode, so it is a parameter.

## Main definitions

* `Alphabet`: the characters of words.
* `Token`, `Alphabet.lex`: tokens and the tokens of a text.
* `Ends`: the texts that do not continue a token.

## Main results

* `Alphabet.lex_word`, `Alphabet.lex_quote`, `Alphabet.lex_number`, `Alphabet.lex_punctuation`: each
  kind of token is read back where it ends.
* `Alphabet.lex_propertyName`: the tokens of the name of a member are read apart from what follows.
* `Alphabet.exists_stray`: a name that is written as a word but is none leaves a mark that stands
  for nothing.
-/

namespace Typings.Emission

/-- The characters that start words and those that continue them. The first 128 characters are
settled. -/
structure Alphabet where
  isStart : Char → Bool
  isPart : Char → Bool
  isPart_of_isStart : ∀ c, isStart c = true → isPart c = true
  isStart_ascii : ∀ c : Char, c.toNat < 128 → isStart c = (c.isAlpha || c == '$' || c == '_')
  isPart_ascii : ∀ c : Char, c.toNat < 128 → isPart c = (c.isAlphanum || c == '$' || c == '_')

/-- The alphabet without any further character. -/
def Alphabet.ascii : Alphabet where
  isStart c := c.isAlpha || c == '$' || c == '_'
  isPart c := c.isAlphanum || c == '$' || c == '_'
  isPart_of_isStart c h := by
    simp only [Bool.or_eq_true] at h
    rcases h with (h | h) | h <;> simp [Char.isAlphanum, h]
  isStart_ascii _ _ := rfl
  isPart_ascii _ _ := rfl

/-- The tokens of generated code. -/
inductive Token where
  | word (text : String)
  | string (value : String)
  | number (value : Binary64)
  | mark (c : Char)
  | arrow
  /-- A string without an end, or a number that is too large. -/
  | unread
  deriving DecidableEq

def Token.ofNumeral (whole fraction : List Char) : Token :=
  match Binary64.ofNumeral? whole fraction with
  | some x => .number x
  | none => .unread

/-- The marks of types. -/
def punctuation : List Char :=
  ['(', ')', '[', ']', '\x7b', '\x7d', '<', '>', '|', '&', ',', ':', '?', '-']

/-- The character that is written after a backslash. -/
def escaped? (c : Char) : Option Char :=
  if c = '"' ∨ c = '\\' then some c
  else if c = 'n' then some '\n'
  else if c = 'r' then some '\r'
  else if c = 't' then some '\t'
  else none

/-- The characters of a string up to its closing quote, and what follows the quote. A string does
not extend over the end of a line. -/
def unquote : List Char → Option (List Char × List Char)
  | [] => none
  | '\\' :: c :: rest =>
    (escaped? c).bind fun d => (unquote rest).map fun (cs, after) => (d :: cs, after)
  | c :: rest =>
    if c = '"' then some ([], rest)
    else if c = '\\' ∨ c = '\n' ∨ c = '\r' then none
    else (unquote rest).map fun (cs, after) => (c :: cs, after)

theorem suffix_of_unquote {cs value after : List Char} (h : unquote cs = some (value, after)) :
    after <:+ cs := by
  fun_induction unquote cs generalizing value with
  | case1 => cases h
  | case2 c rest ih =>
    obtain ⟨d, -, hrest⟩ := Option.bind_eq_some_iff.mp h
    obtain ⟨⟨cs, tail⟩, hunquote, heq⟩ := Option.map_eq_some_iff.mp hrest
    obtain ⟨-, rfl⟩ := Prod.mk.inj heq
    exact (ih hunquote).trans ⟨['\\', c], rfl⟩
  | case3 rest =>
    obtain ⟨-, rfl⟩ := Prod.mk.inj (Option.some.inj h)
    exact List.suffix_cons '"' rest
  | case4 => cases h
  | case5 c rest _ _ _ ih =>
    obtain ⟨⟨cs, tail⟩, hunquote, heq⟩ := Option.map_eq_some_iff.mp h
    obtain ⟨-, rfl⟩ := Prod.mk.inj heq
    exact (ih hunquote).trans (List.suffix_cons c rest)

namespace Alphabet

variable (A : Alphabet)

def isWord (text : String) : Bool :=
  match text.toList with
  | [] => false
  | c :: rest => A.isStart c && rest.all A.isPart

/-- The token that a character starts, if it is not blank, and what follows the token. -/
def munch (c : Char) (rest : List Char) : Option Token × List Char :=
  if c.isWhitespace then (none, rest)
  else if A.isStart c then
    (some (.word (String.ofList (c :: rest.takeWhile A.isPart))), rest.dropWhile A.isPart)
  else if c.isDigit then
    match rest.dropWhile Char.isDigit with
    | '.' :: more =>
      (some (.ofNumeral (c :: rest.takeWhile Char.isDigit) (more.takeWhile Char.isDigit)),
        more.dropWhile Char.isDigit)
    | after => (some (.ofNumeral (c :: rest.takeWhile Char.isDigit) []), after)
  else if c = '"' then
    match unquote rest with
    | some (value, after) => (some (.string (String.ofList value)), after)
    | none => (some .unread, [])
  else if c = '=' ∧ rest.head? = some '>' then (some .arrow, rest.tail)
  else (some (.mark c), rest)

theorem munch_suffix (c : Char) (rest : List Char) : (A.munch c rest).2 <:+ rest := by
  unfold munch
  split_ifs
  · exact List.suffix_rfl
  · exact List.dropWhile_suffix A.isPart
  · have hdigits := List.dropWhile_suffix (l := rest) Char.isDigit
    split
    case h_1 more hmore =>
      rw [hmore] at hdigits
      exact ((List.dropWhile_suffix Char.isDigit).trans (List.suffix_cons '.' more)).trans hdigits
    case h_2 => exact hdigits
  · split
    case h_1 value after hunquote => exact suffix_of_unquote hunquote
    case h_2 => exact List.nil_suffix
  · exact List.tail_suffix rest
  · exact List.suffix_rfl

/-- The tokens of a text. -/
def lex : List Char → List Token
  | [] => []
  | c :: rest => (A.munch c rest).1.toList ++ lex (A.munch c rest).2
termination_by cs => cs.length
decreasing_by
  have := (A.munch_suffix c rest).length_le
  simp only [List.length_cons]
  omega

/-- Whether a text does not continue a token before it. -/
def Ends (rest : List Char) : Prop :=
  ∀ c ∈ rest.head?, A.isPart c = false ∧ c ≠ '.'

/-! ## Characters -/

theorem isWhitespace_of_isStart {c : Char} (h : A.isStart c = true) : c.isWhitespace = false := by
  by_contra hblank
  simp only [Bool.not_eq_false, Char.isWhitespace, Bool.or_eq_true, decide_eq_true_iff] at hblank
  rcases hblank with ((rfl | rfl) | rfl) | rfl
  all_goals
    rw [A.isStart_ascii _ (by decide)] at h
    exact absurd h (by decide)

variable {c : Char} {rest cs : List Char}

theorem digit_cases (h : c.isDigit = true) :
    c ∈ ['0', '1', '2', '3', '4', '5', '6', '7', '8', '9'] := by
  simp only [Char.isDigit, Bool.and_eq_true, decide_eq_true_iff, UInt32.le_iff_toNat_le] at h
  have hlow : 48 ≤ c.toNat := h.1
  have hhigh : c.toNat ≤ 57 := h.2
  rw [← Char.ofNat_toNat c]
  generalize c.toNat = n at hlow hhigh
  interval_cases n <;> decide

/-- A digit continues words and starts none. -/
theorem digit_facts (h : c.isDigit = true) :
    c.isWhitespace = false ∧ A.isStart c = false ∧ A.isPart c = true := by
  obtain ⟨hascii, hblank, hstart, hpart⟩ : c.toNat < 128 ∧ c.isWhitespace = false ∧
      (c.isAlpha || c == '$' || c == '_') = false ∧
        (c.isAlphanum || c == '$' || c == '_') = true := by
    have hdigit := digit_cases h
    fin_cases hdigit <;> decide
  rw [A.isStart_ascii c hascii, A.isPart_ascii c hascii]
  exact ⟨hblank, hstart, hpart⟩

/-- A character that starts no other token than a mark. -/
structure Single (c : Char) : Prop where
  isWhitespace : c.isWhitespace = false
  isStart : A.isStart c = false
  isDigit : c.isDigit = false
  ne_quote : c ≠ '"'
  ne_equals : c ≠ '='

theorem single_of_mem_punctuation (h : c ∈ punctuation) : A.Single c := by
  obtain ⟨hascii, hblank, hstart, hdigit, hquote, hequals⟩ : c.toNat < 128 ∧
      c.isWhitespace = false ∧
      (c.isAlpha || c == '$' || c == '_') = false ∧ c.isDigit = false ∧ c ≠ '"' ∧ c ≠ '=' := by
    fin_cases h <;> decide
  exact ⟨hblank, (A.isStart_ascii c hascii).trans hstart, hdigit, hquote, hequals⟩

theorem ends_nil : A.Ends [] := by
  intro c hc
  cases hc

theorem ends_punctuation (h : c ∈ punctuation) (rest : List Char) : A.Ends (c :: rest) := by
  intro d hd
  obtain rfl := Option.some.inj hd
  obtain ⟨hascii, hpart, hpoint⟩ : c.toNat < 128 ∧
      (c.isAlphanum || c == '$' || c == '_') = false ∧ c ≠ '.' := by
    fin_cases h <;> decide
  exact ⟨(A.isPart_ascii c hascii).trans hpart, hpoint⟩

theorem ends_blank (rest : List Char) : A.Ends (' ' :: rest) := by
  intro d hd
  obtain rfl := Option.some.inj hd
  exact ⟨A.isPart_ascii ' ' (by decide), by decide⟩

/-! ## Single tokens -/

@[simp]
theorem lex_nil : A.lex [] = [] := by
  rw [lex]

theorem lex_cons (c : Char) (rest : List Char) :
    A.lex (c :: rest) = (A.munch c rest).1.toList ++ A.lex (A.munch c rest).2 := by
  rw [lex]

theorem lex_blank (rest : List Char) : A.lex (' ' :: rest) = A.lex rest := by
  rw [lex_cons]
  rfl

theorem munch_single (h : A.Single c) (rest : List Char) :
    A.munch c rest = (some (.mark c), rest) := by
  simp [munch, h.isWhitespace, h.isStart, h.isDigit, h.ne_quote, h.ne_equals]

theorem lex_single (h : A.Single c) (rest : List Char) :
    A.lex (c :: rest) = .mark c :: A.lex rest := by
  rw [lex_cons, A.munch_single h]
  rfl

theorem lex_punctuation (h : c ∈ punctuation) (rest : List Char) :
    A.lex (c :: rest) = .mark c :: A.lex rest :=
  A.lex_single (A.single_of_mem_punctuation h) rest

theorem lex_arrow (rest : List Char) : A.lex ('=' :: '>' :: rest) = .arrow :: A.lex rest := by
  have hstart : A.isStart '=' = false := A.isStart_ascii '=' (by decide)
  rw [lex_cons]
  simp [munch, hstart, Char.isWhitespace, Char.isDigit]

/-- A run of characters of one class is not continued by a text that starts with none of them. -/
theorem span_append {test : Char → Bool} (cs : List Char)
    (hrest : ∀ c ∈ rest.head?, test c = false) :
    (cs ++ rest).takeWhile test = cs.takeWhile test ∧
      (cs ++ rest).dropWhile test = cs.dropWhile test ++ rest := by
  induction cs with
  | nil =>
    cases rest with
    | nil => simp
    | cons c rest =>
      have hc : test c = false := hrest c rfl
      simp [hc]
  | cons c cs ih => by_cases hc : test c = true <;> simp [hc, ih]

/-- A run is all of its characters. -/
theorem span_append_of_all {test : Char → Bool} (hcs : ∀ c ∈ cs, test c = true)
    (hrest : ∀ c ∈ rest.head?, test c = false) :
    (cs ++ rest).takeWhile test = cs ∧ (cs ++ rest).dropWhile test = rest := by
  obtain ⟨htake, hdrop⟩ := span_append cs hrest
  rw [htake, hdrop, List.takeWhile_eq_self_iff.mpr hcs, List.dropWhile_eq_nil_iff.mpr hcs]
  exact ⟨rfl, rfl⟩

/-- No digit stands where a token ends. -/
theorem Ends.isDigit (h : A.Ends rest) : ∀ c ∈ rest.head?, c.isDigit = false := by
  intro c hc
  by_contra hdigit
  rw [Bool.not_eq_false] at hdigit
  exact absurd (A.digit_facts hdigit).2.2 (by simp [(h c hc).1])

theorem lex_word {text : String} (h : A.isWord text = true) (hrest : A.Ends rest) :
    A.lex (text.toList ++ rest) = .word text :: A.lex rest := by
  unfold isWord at h
  split at h
  · cases h
  case h_2 c cs htext =>
    rw [Bool.and_eq_true, List.all_eq_true] at h
    obtain ⟨hstart, hparts⟩ := h
    obtain ⟨htake, hdrop⟩ := span_append_of_all hparts fun d hd => (hrest d hd).1
    have hmunch : A.munch c (cs ++ rest) = (some (.word (String.ofList (c :: cs))), rest) := by
      simp [munch, A.isWhitespace_of_isStart hstart, hstart, htake, hdrop]
    rw [htext, List.cons_append, lex_cons, hmunch, ← htext, String.ofList_toList]
    rfl

theorem munch_digit (hc : c.isDigit = true)
    (hpoint : ∀ more, cs.dropWhile Char.isDigit ≠ '.' :: more) :
    A.munch c cs =
      (some (.ofNumeral (c :: cs.takeWhile Char.isDigit) []), cs.dropWhile Char.isDigit) := by
  obtain ⟨hblank, hstart, -⟩ := A.digit_facts hc
  unfold munch
  rw [if_neg (by simp [hblank]), if_neg (by simp [hstart]), if_pos hc]
  split
  case h_1 more hmore => exact absurd hmore (hpoint more)
  case h_2 => rfl

theorem lex_numeral {whole fraction : List Char} (hne : whole ≠ [])
    (hdigits : ∀ c ∈ whole ++ fraction, c.isDigit = true) (hrest : A.Ends rest) :
    A.lex (Decimal.numeral whole fraction ++ rest) = .ofNumeral whole fraction :: A.lex rest := by
  obtain ⟨d, ds, rfl⟩ := List.exists_cons_of_ne_nil hne
  have hd : d.isDigit = true := hdigits d (by simp)
  have hds : ∀ c ∈ ds, c.isDigit = true := fun c hc => hdigits c (by simp [hc])
  have hfraction : ∀ c ∈ fraction, c.isDigit = true := fun c hc => hdigits c (by simp [hc])
  have hmunch : A.munch d (ds ++ ((if fraction = [] then [] else '.' :: fraction) ++ rest)) =
      (some (.ofNumeral (d :: ds) fraction), rest) := by
    by_cases hnil : fraction = []
    · obtain ⟨htake, hdrop⟩ := span_append_of_all hds (Ends.isDigit A hrest)
      have hpoint : ∀ more, (ds ++ rest).dropWhile Char.isDigit ≠ '.' :: more := by
        rw [hdrop]
        rintro more rfl
        exact (hrest '.' rfl).2 rfl
      rw [if_pos hnil, List.nil_append, A.munch_digit hd hpoint, htake, hdrop, hnil]
    · have hpoint : ∀ c ∈ ('.' :: (fraction ++ rest)).head?, c.isDigit = false := by
        intro c hc
        obtain rfl := Option.some.inj hc
        rfl
      obtain ⟨hblank, hstart, -⟩ := A.digit_facts hd
      obtain ⟨htake, hdrop⟩ := span_append_of_all hds hpoint
      obtain ⟨htake', hdrop'⟩ := span_append_of_all hfraction (Ends.isDigit A hrest)
      unfold munch
      rw [if_neg (by simp [hblank]), if_neg (by simp [hstart]), if_pos hd, if_neg hnil,
        List.cons_append, htake, hdrop]
      show (some (Token.ofNumeral (d :: ds) ((fraction ++ rest).takeWhile Char.isDigit)),
        (fraction ++ rest).dropWhile Char.isDigit) = _
      rw [htake', hdrop']
  rw [Decimal.numeral, List.append_assoc, List.cons_append, lex_cons, hmunch]
  rfl

/-- The text of a number is read as its sign and its magnitude. -/
theorem lex_number {x : Binary64} (hx : x.InFormat) (hrest : A.Ends rest) :
    A.lex (x.text.toList ++ rest) =
      (if x.negative then [.mark '-'] else []) ++ .number { x with negative := false } ::
        A.lex rest := by
  obtain ⟨whole, fraction, htext, hne, hdigits, hvalue⟩ := Binary64.exists_numeral hx
  have hnumeral := A.lex_numeral hne hdigits hrest
  rw [Token.ofNumeral, hvalue] at hnumeral
  rw [htext, List.append_assoc]
  split
  · rw [List.singleton_append, A.lex_punctuation (by decide), hnumeral]
    rfl
  · rw [List.nil_append, hnumeral]
    rfl

/-! ## Strings -/

theorem unquote_quoteChar (c : Char) (rest : List Char) :
    unquote (quoteChar c ++ rest) = (unquote rest).map fun (cs, after) => (c :: cs, after) := by
  unfold quoteChar
  split_ifs with hquote hbackslash hnewline hreturn htab
  · subst hquote
    rfl
  · subst hbackslash
    rfl
  · subst hnewline
    rfl
  · subst hreturn
    rfl
  · subst htab
    rfl
  · rw [List.singleton_append, unquote]
    · simp [hquote, hbackslash, hnewline, hreturn]
    · rintro d more rfl
      exact absurd rfl hbackslash

theorem unquote_quoted (cs rest : List Char) :
    unquote (cs.flatMap quoteChar ++ '"' :: rest) = some (cs, rest) := by
  induction cs with
  | nil => rfl
  | cons c cs ih =>
    rw [List.flatMap_cons, List.append_assoc, unquote_quoteChar, ih]
    rfl

theorem lex_quote (text : String) (rest : List Char) :
    A.lex ((quote text).toList ++ rest) = .string text :: A.lex rest := by
  have hstart : A.isStart '"' = false := A.isStart_ascii '"' (by decide)
  have hmunch : A.munch '"' (text.toList.flatMap quoteChar ++ '"' :: rest) =
      (some (.string text), rest) := by
    simp [munch, hstart, Char.isWhitespace, Char.isDigit, unquote_quoted]
  have hquote : (quote text).toList ++ rest =
      '"' :: (text.toList.flatMap quoteChar ++ '"' :: rest) := by
    simp [quote]
  rw [hquote, lex_cons, hmunch]
  rfl

/-! ## Names of members

A name that the generator takes for a word is written without quotes. Its characters start no string
and no arrow, and no point continues a number among them. -/

theorem name_facts (h : Identifier.isPart c = true) :
    c.isWhitespace = false ∧ c ≠ '"' ∧ c ≠ '=' ∧ c ≠ '.' ∧ c ∉ punctuation := by
  refine ⟨?_, ?_, ?_, ?_, ?_⟩
  · by_contra hblank
    simp only [Bool.not_eq_false, Char.isWhitespace, Bool.or_eq_true, decide_eq_true_iff] at hblank
    rcases hblank with ((rfl | rfl) | rfl) | rfl <;> exact absurd h (by decide)
  · rintro rfl
    exact absurd h (by decide)
  · rintro rfl
    exact absurd h (by decide)
  · rintro rfl
    exact absurd h (by decide)
  · intro hmark
    fin_cases hmark <;> exact absurd h (by decide)

/-- A token among the characters of a name ends before what follows the name. -/
theorem munch_append (hc : Identifier.isPart c = true)
    (hcs : ∀ d ∈ cs, Identifier.isPart d = true) (hrest : A.Ends rest) :
    A.munch c (cs ++ rest) = ((A.munch c cs).1, (A.munch c cs).2 ++ rest) := by
  obtain ⟨hblank, hquote, hequals, -, -⟩ := name_facts hc
  by_cases hstart : A.isStart c = true
  · obtain ⟨htake, hdrop⟩ := span_append cs fun d hd => (hrest d hd).1
    simp [munch, hblank, hstart, htake, hdrop]
  · by_cases hdigit : c.isDigit = true
    · obtain ⟨htake, hdrop⟩ := span_append cs (Ends.isDigit A hrest)
      have hpoint : ∀ more, cs.dropWhile Char.isDigit ++ rest ≠ '.' :: more := by
        intro more hmore
        rcases List.append_eq_cons_iff.mp hmore with ⟨-, hrest'⟩ | ⟨tail, htail, -⟩
        · exact (hrest '.' (by rw [hrest']; rfl)).2 rfl
        · have hmem : '.' ∈ cs.dropWhile Char.isDigit := htail ▸ List.mem_cons_self
          have hmem := (List.dropWhile_suffix Char.isDigit).mem hmem
          exact (name_facts (hcs '.' hmem)).2.2.2.1 rfl
      have hpoint' : ∀ more, cs.dropWhile Char.isDigit ≠ '.' :: more := by
        intro more hmore
        exact hpoint (more ++ rest) (by rw [hmore]; rfl)
      rw [A.munch_digit hdigit hpoint', A.munch_digit hdigit (by rwa [hdrop]), htake, hdrop]
    · simp [munch, hblank, hstart, hdigit, hquote, hequals]

/-- The tokens of a name are read apart from what follows it. -/
theorem lex_name (hcs : ∀ c ∈ cs, Identifier.isPart c = true) (hrest : A.Ends rest) :
    A.lex (cs ++ rest) = A.lex cs ++ A.lex rest := by
  fun_induction A.lex cs with
  | case1 => rfl
  | case2 c cs ih =>
    have hc : Identifier.isPart c = true := hcs c List.mem_cons_self
    have hcs' : ∀ d ∈ cs, Identifier.isPart d = true :=
      fun d hd => hcs d (List.mem_cons_of_mem c hd)
    have hafter := ih fun d hd => hcs' d ((A.munch_suffix c cs).mem hd)
    rw [List.cons_append, lex_cons, A.munch_append hc hcs' hrest, hafter, List.append_assoc]

theorem mem_isPart_of_isValid {name : String} (h : Identifier.isValid name = true) :
    ∀ c ∈ name.toList, Identifier.isPart c = true := by
  unfold Identifier.isValid at h
  intro c hc
  cases hname : name.toList with
  | nil => simp [hname] at hc
  | cons d ds =>
    rw [hname, Identifier.isValidChars, Bool.and_eq_true, List.all_eq_true] at h
    rw [hname] at hc
    rcases List.mem_cons.mp hc with rfl | hc
    · exact Identifier.isPart_of_isStart h.1
    · exact h.2 c hc

/-- The name of a member is read apart from what follows it. -/
theorem lex_propertyName (name : String) (hrest : A.Ends rest) :
    A.lex ((propertyName name).toList ++ rest) =
      A.lex (propertyName name).toList ++ A.lex rest := by
  unfold propertyName
  split
  case isTrue hvalid => exact A.lex_name (mem_isPart_of_isValid hvalid) hrest
  case isFalse =>
    have hquote := A.lex_quote name []
    rw [List.append_nil] at hquote
    rw [lex_quote, hquote, lex_nil]
    rfl

/-- A character of a name that neither starts a word nor is a digit is a mark without a meaning. -/
theorem single_of_name (hc : Identifier.isPart c = true) (hstart : A.isStart c = false)
    (hdigit : c.isDigit = false) : A.Single c ∧ c ∉ punctuation := by
  obtain ⟨hblank, hquote, hequals, -, hmark⟩ := name_facts hc
  exact ⟨⟨hblank, hstart, hdigit, hquote, hequals⟩, hmark⟩

/-- What starts a word and digits continue one, so a character that continues none is neither. -/
theorem single_of_not_isPart (hc : Identifier.isPart c = true) (hpart : A.isPart c = false) :
    A.Single c ∧ c ∉ punctuation := by
  refine A.single_of_name hc ?_ ?_
  · by_contra h
    rw [Bool.not_eq_false] at h
    simp [A.isPart_of_isStart c h] at hpart
  · by_contra h
    rw [Bool.not_eq_false] at h
    simp [(A.digit_facts h).2.2] at hpart

/-- A name that is taken for a word but is none leaves a mark that has no meaning. -/
theorem exists_stray {name : String} (hvalid : Identifier.isValid name = true)
    (hword : A.isWord name = false) : ∃ c ∉ punctuation, .mark c ∈ A.lex name.toList := by
  have hparts := mem_isPart_of_isValid hvalid
  unfold Identifier.isValid at hvalid
  unfold isWord at hword
  cases hname : name.toList with
  | nil => simp [hname, Identifier.isValidChars] at hvalid
  | cons c cs =>
    rw [hname] at hparts hword hvalid
    rw [Identifier.isValidChars, Bool.and_eq_true] at hvalid
    by_cases hstart : A.isStart c = true
    · cases hdrop : cs.dropWhile A.isPart with
      | nil =>
        rw [List.dropWhile_eq_nil_iff] at hdrop
        simp [hstart] at hword
        obtain ⟨d, hd, hpart⟩ := hword
        simp [hdrop d hd] at hpart
      | cons d more =>
        have hd : A.isPart d = false := by
          have hhead := List.head?_dropWhile_not A.isPart cs
          rw [hdrop] at hhead
          simpa using hhead
        have hmem : d ∈ cs := (List.dropWhile_suffix A.isPart).mem (hdrop ▸ List.mem_cons_self)
        obtain ⟨hsingle, hmark⟩ :=
          A.single_of_not_isPart (hparts d (List.mem_cons_of_mem c hmem)) hd
        have hafter : (A.munch c cs).2 = d :: more := by
          simp [munch, A.isWhitespace_of_isStart hstart, hstart, hdrop]
        refine ⟨d, hmark, ?_⟩
        rw [lex_cons, hafter, A.lex_single hsingle]
        simp
    · have hdigit : c.isDigit = false := by
        by_contra h
        rw [Bool.not_eq_false] at h
        have hdigit := digit_cases h
        have hfirst := hvalid.1
        fin_cases hdigit <;> exact absurd hfirst (by decide)
      obtain ⟨hsingle, hmark⟩ :=
        A.single_of_name (hparts c List.mem_cons_self) (by simpa using hstart) hdigit
      refine ⟨c, hmark, ?_⟩
      rw [A.lex_single hsingle]
      exact List.mem_cons_self

end Alphabet

end Typings.Emission
