import Typings.Proofs.Emission.Token

/-!
# String literals of generated code

A string literal stands between double quotes. A backslash starts an escape sequence, the quote ends
the literal, LF and CR stand in no literal, and every other character stands for itself. The reader
knows the escape sequences of the language, not only those that quoting writes, so a character that
is left unescaped cannot go unnoticed.

## Main definitions

* `escape?`: the escape sequence after a backslash.
* `stringLiteral?`: the value of the string literal that a text starts with.

## Main results

* `stringBody?_of_unquote`: what the reader of tokens takes for a string has the same value here.
* `stringLiteral?_propertyName`: the name of a member is read back from the literal that it is
  written as.
* `quote_reads_back`: quoting is undone by reading, and distinct names of members are written
  differently.
-/

namespace Typings.Emission

/-! ## Escape sequences -/

/-- The character that a letter after a backslash stands for, if it is not itself. -/
def controlEscape? (c : Char) : Option Char :=
  if c = 'b' then some '\x08'
  else if c = 't' then some '\t'
  else if c = 'n' then some '\n'
  else if c = 'v' then some '\x0b'
  else if c = 'f' then some '\x0c'
  else if c = 'r' then some '\r'
  else none

/-- The character of the hexadecimal digits of a code point. -/
def codePoint? (digits : List Char) : Option Char :=
  if digits = [] then none else (Text.hexNumber? digits).bind Text.scalar?

/-- The character of so many hexadecimal digits, and what follows them. -/
def digitEscape? (count : Nat) (cs : List Char) : Option (List Char × List Char) :=
  if cs.length < count then none
  else (codePoint? (cs.take count)).map fun c => ([c], cs.drop count)

/-- The character of the hexadecimal digits up to a closing brace, and what follows the brace. -/
def braceEscape? (cs : List Char) : Option (List Char × List Char) :=
  match cs.dropWhile (· ≠ '\x7d') with
  | [] => none
  | _ :: rest => (codePoint? (cs.takeWhile (· ≠ '\x7d'))).map fun c => ([c], rest)

/-- What the escape sequence after a backslash stands for, and what follows it. The end of a line
stands for nothing. Half of a surrogate pair is no character, so it is not read. -/
def escape? : List Char → Option (List Char × List Char)
  | [] => none
  | c :: cs =>
    if c = 'x' then digitEscape? 2 cs
    else if c = 'u' then
      if cs.head? = some '\x7b' then braceEscape? cs.tail else digitEscape? 4 cs
    else if c.isDigit then
      -- a zero alone is a character, more digits would be octal
      if c = '0' ∧ ¬cs.head?.any Char.isDigit then some (['\x00'], cs) else none
    else if c = '\r' ∧ cs.head? = some '\n' then some ([], cs.tail)
    else if c = '\n' ∨ c = '\r' ∨ c = '\u2028' ∨ c = '\u2029' then some ([], cs)
    else some ([(controlEscape? c).getD c], cs)

variable {cs value after : List Char}

theorem suffix_of_digitEscape? {count : Nat} (h : digitEscape? count cs = some (value, after)) :
    after <:+ cs := by
  unfold digitEscape? at h
  split at h
  · cases h
  · obtain ⟨c, -, heq⟩ := Option.map_eq_some_iff.mp h
    obtain ⟨-, rfl⟩ := Prod.mk.inj heq
    exact List.drop_suffix count cs

theorem suffix_of_braceEscape? (h : braceEscape? cs = some (value, after)) : after <:+ cs := by
  unfold braceEscape? at h
  split at h
  · cases h
  case h_2 brace rest hrest =>
    obtain ⟨c, -, heq⟩ := Option.map_eq_some_iff.mp h
    obtain ⟨-, rfl⟩ := Prod.mk.inj heq
    have hbrace : brace :: rest <:+ cs := hrest ▸ List.dropWhile_suffix _
    exact (List.suffix_cons brace rest).trans hbrace

theorem suffix_of_escape? (h : escape? cs = some (value, after)) : after <:+ cs := by
  cases cs with
  | nil => cases h
  | cons c cs =>
    refine List.IsSuffix.trans ?_ (List.suffix_cons c cs)
    rw [escape?] at h
    split_ifs at h
    · exact suffix_of_digitEscape? h
    · exact (suffix_of_braceEscape? h).trans (List.tail_suffix cs)
    · exact suffix_of_digitEscape? h
    all_goals
      obtain ⟨-, rfl⟩ := Prod.mk.inj (Option.some.inj h)
    · exact List.suffix_rfl
    · exact List.tail_suffix cs
    · exact List.suffix_rfl
    · exact List.suffix_rfl

/-- The escape sequences of tokens are among those of the language. -/
theorem escape?_of_escaped? {c d : Char} (h : escaped? c = some d) (cs : List Char) :
    escape? (c :: cs) = some ([d], cs) := by
  unfold escaped? at h
  split_ifs at h with hself hnewline hreturn htab
  · obtain rfl := Option.some.inj h
    rcases hself with rfl | rfl <;> rfl
  all_goals
    obtain rfl := Option.some.inj h
    subst c
    rfl

/-! ## String literals -/

/-- What is read behind a value that characters are put before. -/
theorem exists_of_map_value {read : Option (List Char × List Char)} {add : List Char → List Char}
    {value after : List Char}
    (h : (read.map fun (value, after) => (add value, after)) = some (value, after)) :
    ∃ value', read = some (value', after) ∧ add value' = value := by
  obtain ⟨⟨value', after'⟩, hread, heq⟩ := Option.map_eq_some_iff.mp h
  obtain ⟨hvalue, rfl⟩ := Prod.mk.inj heq
  exact ⟨value', hread, hvalue⟩

/-- The value of a string up to its closing quote, and what follows the quote. -/
def stringBody? : List Char → Option (List Char × List Char)
  | [] => none
  | c :: cs =>
    if c = '"' then some ([], cs)
    else if c = '\\' then
      match _h : escape? cs with
      | none => none
      | some (escaped, rest) =>
        (stringBody? rest).map fun (value, after) => (escaped ++ value, after)
    else if c = '\n' ∨ c = '\r' then none
    else (stringBody? cs).map fun (value, after) => (c :: value, after)
termination_by cs => cs.length
decreasing_by
  · have := (suffix_of_escape? _h).length_le
    simp only [List.length_cons]
    omega
  · simp only [List.length_cons]
    omega

/-- The value of the string literal that a text starts with, and what follows it. -/
def stringLiteral? : List Char → Option (List Char × List Char)
  | [] => none
  | c :: cs => if c = '"' then stringBody? cs else none

theorem stringBody?_escape {escaped rest : List Char} (h : escape? cs = some (escaped, rest)) :
    stringBody? ('\\' :: cs) =
      (stringBody? rest).map fun (value, after) => (escaped ++ value, after) := by
  rw [stringBody?, if_neg (by decide), if_pos rfl]
  split
  case h_1 hnone => exact absurd (hnone.symm.trans h) (by simp)
  case h_2 hsome =>
    obtain ⟨rfl, rfl⟩ := Prod.mk.inj (Option.some.inj (hsome.symm.trans h))
    rfl

/-- A string among the tokens has the same value as a string literal. -/
theorem stringBody?_of_unquote {cs value after : List Char} (h : unquote cs = some (value, after)) :
    stringBody? cs = some (value, after) := by
  fun_induction unquote cs generalizing value with
  | case1 => cases h
  | case2 c rest ih =>
    obtain ⟨d, hd, hrest⟩ := Option.bind_eq_some_iff.mp h
    obtain ⟨ds, hunquote, rfl⟩ := exists_of_map_value hrest
    rw [stringBody?_escape (escape?_of_escaped? hd rest), ih hunquote]
    rfl
  | case3 rest =>
    rw [stringBody?, if_pos rfl, h]
  | case4 => cases h
  | case5 c rest _ hquote hplain ih =>
    obtain ⟨ds, hunquote, rfl⟩ := exists_of_map_value h
    obtain ⟨hbackslash, hline⟩ := not_or.mp hplain
    rw [stringBody?, if_neg hquote, if_neg hbackslash, if_neg hline, ih hunquote]
    rfl

/-! ## Quoting -/

/-- What quoting writes is one string literal with the value that was quoted. -/
theorem stringLiteral?_quote (text : String) :
    stringLiteral? (quote text).toList = some (text.toList, []) := by
  rw [quote, String.toList_ofList, List.cons_append, stringLiteral?, if_pos rfl]
  exact stringBody?_of_unquote (Alphabet.unquote_quoted text.toList [])

/-- What quoting writes stands on one line. -/
theorem not_lineEnd_of_mem_quote {text : String} {c : Char} (h : c ∈ (quote text).toList) :
    c ≠ '\n' ∧ c ≠ '\r' := by
  rw [quote, String.toList_ofList, List.cons_append, List.mem_cons, List.mem_append,
    List.mem_singleton, List.mem_flatMap] at h
  rcases h with rfl | ⟨d, -, hc⟩ | rfl
  · decide
  · unfold quoteChar at hc
    split_ifs at hc with _ _ hnewline hreturn
    case neg =>
      obtain rfl := List.mem_singleton.mp hc
      exact ⟨hnewline, hreturn⟩
    all_goals
      simp only [List.mem_cons, List.not_mem_nil, or_false] at hc
      rcases hc with rfl | rfl <;> decide
  · decide

/-- An identifier is no string literal. -/
theorem stringLiteral?_of_isValid {name : String} (h : Identifier.isValid name = true) :
    stringLiteral? name.toList = none := by
  have hparts := Alphabet.mem_isPart_of_isValid h
  cases hname : name.toList with
  | nil => rfl
  | cons c cs =>
    have hc : Identifier.isPart c = true := hparts c (hname ▸ List.mem_cons_self)
    rw [stringLiteral?, if_neg (Alphabet.name_facts hc).2.1]

/-- The name of a member is a string literal with that value unless it is an identifier. -/
theorem stringLiteral?_propertyName (name : String) :
    stringLiteral? (propertyName name).toList =
      if Identifier.isValid name then none else some (name.toList, []) := by
  unfold propertyName
  split
  case isTrue hvalid => exact stringLiteral?_of_isValid hvalid
  case isFalse => exact stringLiteral?_quote name

theorem propertyName_of_isValid {name : String} (h : Identifier.isValid name = true) :
    propertyName name = name :=
  if_pos h

theorem propertyName_injective : Function.Injective propertyName := by
  intro a b h
  have hread := congrArg (fun text => stringLiteral? text.toList) h
  simp only [stringLiteral?_propertyName] at hread
  split_ifs at hread with ha hb hb
  · rwa [propertyName_of_isValid ha, propertyName_of_isValid hb] at h
  · exact String.toList_inj.mp (Prod.mk.inj (Option.some.inj hread)).1

/-- Quoting a text gives one string literal on one line with the text as its value. The name of a
member is written as it is if it is an identifier and as a string literal with that value if not,
and no two names are written alike. -/
theorem quote_reads_back :
    (∀ text, stringLiteral? (quote text).toList = some (text.toList, []) ∧
      ∀ c ∈ (quote text).toList, c ≠ '\n' ∧ c ≠ '\r') ∧
    (∀ name, if Identifier.isValid name then propertyName name = name
      else stringLiteral? (propertyName name).toList = some (name.toList, [])) ∧
    Function.Injective propertyName := by
  refine ⟨fun text => ⟨stringLiteral?_quote text, fun c hc => not_lineEnd_of_mem_quote hc⟩, ?_,
    propertyName_injective⟩
  intro name
  split
  case isTrue hvalid => exact propertyName_of_isValid hvalid
  case isFalse hvalid => rw [stringLiteral?_propertyName, if_neg hvalid]

end Typings.Emission
