import Typings.Emission.CodeText
import Typings.Proofs.Emission.StringLiteral
import Typings.Proofs.PathRoundTrip

/-!
# Addresses as template literals

The code of a client requests the address of an endpoint as a template literal after the name of the
function that encodes it. Such a literal stands between backticks. What stands between its
substitutions is cooked: a backslash starts an escape sequence, and CR and CR LF become LF. So the
literal text of a path is read back if there is no CR in it.

Substitutions are read as the text of their expressions.

## Main definitions

* `TemplateLiteral`: the cooked strings of a template literal and the texts of its substitutions.
* `cooked?`, `source?`: a string up to its end, and a substitution up to its closing brace.
* `taggedTemplate?`: the template literal that a text is, with the text before it.

## Main results

* `escapeTemplate_eq`: a text can be escaped in one pass.
* `template?_partsFrom`: the parts of a path are read back.
* `Service.address_reads_back`: the address of an endpoint has the parameters of its path as
  substitutions and the text between them as strings.
-/

namespace Typings

namespace Emission

/-! ## Template literals -/

/-- A template literal, read. The strings stand around the substitutions. -/
structure TemplateLiteral where
  strings : List String
  substitutions : List String
  deriving Repr, DecidableEq

/-- The cooked characters up to the end of a template literal or its next substitution, and the text
from there. -/
def cooked? : List Char → Option (List Char × List Char)
  | [] => none
  | c :: cs =>
    if c = '\x60' ∨ c = '$' ∧ cs.head? = some '\x7b' then some ([], c :: cs)
    else if c = '\\' then
      match _h : escape? cs with
      | none => none
      | some (escaped, rest) => (cooked? rest).map fun (value, after) => (escaped ++ value, after)
    else if c = '\r' then
      -- the ends of lines are all read as LF
      (cooked? (if cs.head? = some '\n' then cs.tail else cs)).map fun (value, after) =>
        ('\n' :: value, after)
    else (cooked? cs).map fun (value, after) => (c :: value, after)
termination_by cs => cs.length
decreasing_by
  · have := (suffix_of_escape? _h).length_le
    simp only [List.length_cons]
    omega
  · split <;> simp
  · simp

/-- How many braces are open after a character, of which so many are before it. -/
def openBraces (depth : Nat) (c : Char) : Nat :=
  if c = '\x7b' then depth + 1 else if c = '\x7d' then depth - 1 else depth

/-- The text of an expression up to the closing brace of its substitution, and what follows the
brace. Strings, templates and comments are not read. -/
def source? : Nat → List Char → Option (List Char × List Char)
  | _, [] => none
  | depth, c :: cs =>
    if c = '"' ∨ c = '\x27' ∨ c = '\x60' ∨ c = '/' then none
    else if c = '\x7d' ∧ depth = 0 then some ([], cs)
    else (source? (openBraces depth c) cs).map fun (value, after) => (c :: value, after)

variable {cs value after text tail : List Char}

theorem suffix_of_cooked? (h : cooked? cs = some (value, after)) : after <:+ cs := by
  fun_induction cooked? cs generalizing value with
  | case1 => cases h
  | case2 =>
    obtain ⟨-, rfl⟩ := Prod.mk.inj (Option.some.inj h)
    exact List.suffix_rfl
  | case3 => cases h
  | case4 cs escaped rest hescape _ ih =>
    obtain ⟨ds, hrest, -⟩ := exists_of_map_value h
    exact ((ih hrest).trans (suffix_of_escape? hescape)).trans (List.suffix_cons _ cs)
  | case5 cs _ _ ih =>
    obtain ⟨ds, hrest, -⟩ := exists_of_map_value h
    refine (ih hrest).trans (List.IsSuffix.trans ?_ (List.suffix_cons _ cs))
    split
    · exact List.tail_suffix cs
    · exact List.suffix_rfl
  | case6 c cs _ _ _ ih =>
    obtain ⟨ds, hrest, -⟩ := exists_of_map_value h
    exact (ih hrest).trans (List.suffix_cons c cs)

theorem suffix_of_source? {depth : Nat} (h : source? depth cs = some (value, after)) :
    after <:+ cs := by
  fun_induction source? depth cs generalizing value with
  | case1 => cases h
  | case2 => cases h
  | case3 c cs =>
    obtain ⟨-, rfl⟩ := Prod.mk.inj (Option.some.inj h)
    exact List.suffix_cons _ _
  | case4 depth c cs _ _ ih =>
    obtain ⟨ds, hrest, -⟩ := exists_of_map_value h
    exact (ih hrest).trans (List.suffix_cons c cs)

/-- The template literal after an opening backtick, and what follows its closing one. -/
def template? (cs : List Char) : Option (TemplateLiteral × List Char) :=
  match _hcooked : cooked? cs with
  | some (value, '\x60' :: rest) => some (⟨[String.ofList value], []⟩, rest)
  | some (value, '$' :: '\x7b' :: rest) =>
    match _hsource : source? 0 rest with
    | none => none
    | some (source, rest) => (template? rest).map fun (literal, after) =>
      (⟨String.ofList value :: literal.strings, String.ofList source :: literal.substitutions⟩,
        after)
  | _ => none
termination_by cs.length
decreasing_by
  have hcooked := (suffix_of_cooked? _hcooked).length_le
  have hsource := (suffix_of_source? _hsource).length_le
  simp only [List.length_cons] at hcooked
  omega

/-- The template literal that a text ends with, if nothing follows it, and the text before it. -/
def taggedTemplate? (text : String) : Option (String × TemplateLiteral) :=
  match text.toList.dropWhile (· ≠ '\x60') with
  | [] => none
  | _ :: cs =>
    match template? cs with
    | some (literal, []) => some (String.ofList (text.toList.takeWhile (· ≠ '\x60')), literal)
    | _ => none

/-! ## Strings -/

theorem cooked?_escape {cs escaped rest : List Char} (h : escape? cs = some (escaped, rest)) :
    cooked? ('\\' :: cs) = (cooked? rest).map fun (value, after) => (escaped ++ value, after) := by
  rw [cooked?, if_neg (by simp), if_pos rfl]
  split
  case h_1 hnone => exact absurd (hnone.symm.trans h) (by simp)
  case h_2 hsome =>
    obtain ⟨rfl, rfl⟩ := Prod.mk.inj (Option.some.inj (hsome.symm.trans h))
    rfl

/-- The marks that escaping puts a backslash before stand for themselves after it. -/
theorem cooked?_escaped {c : Char} (h : c ∈ ['\\', '\x60', '$']) (rest : List Char) :
    cooked? ('\\' :: c :: rest) = (cooked? rest).map fun (value, after) => (c :: value, after) := by
  have hescape : escape? (c :: rest) = some ([c], rest) := by
    fin_cases h <;> rfl
  exact cooked?_escape hescape

theorem cooked?_plain {c : Char} (hend : c ≠ '\x60')
    (hsubstitution : c = '$' → cs.head? ≠ some '\x7b') (hbackslash : c ≠ '\\')
    (hreturn : c ≠ '\r') :
    cooked? (c :: cs) = (cooked? cs).map fun (value, after) => (c :: value, after) := by
  rw [cooked?, if_neg (by simpa [hend] using hsubstitution), if_neg hbackslash, if_neg hreturn]

/-- Escapes a text in one pass. -/
def escapeAtOnce : List Char → List Char
  | [] => []
  | '\\' :: rest => '\\' :: '\\' :: escapeAtOnce rest
  | '\x60' :: rest => '\\' :: '\x60' :: escapeAtOnce rest
  | '$' :: '\x7b' :: rest => '\\' :: '$' :: '\x7b' :: escapeAtOnce rest
  | c :: rest => c :: escapeAtOnce rest

theorem head?_of_escapeChar {mark : Char} (h : (escapeChar mark cs).head? = some '\x7b') :
    cs.head? = some '\x7b' := by
  cases cs with
  | nil => cases h
  | cons c cs =>
    by_cases hc : c = mark
    · simp [escapeChar, hc] at h
    · simpa [escapeChar, hc] using h

/-- Each replacement leaves alone what the ones before it have written. -/
theorem escapeTemplate_eq (text : List Char) : escapeTemplate text = escapeAtOnce text := by
  unfold escapeTemplate
  fun_induction escapeAtOnce text with
  | case1 => rfl
  | case2 rest ih | case3 rest ih | case4 rest ih =>
    rw [← ih]
    simp [escapeChar, escapeSubstitutions]
  | case5 c rest hbackslash hend hsubstitution ih =>
    have hmarks : escapeChar '\x60' (escapeChar '\\' (c :: rest)) =
        c :: escapeChar '\x60' (escapeChar '\\' rest) := by
      have hc : c ≠ '\\' ∧ c ≠ '\x60' := ⟨hbackslash, hend⟩
      simp [escapeChar, hc]
    rw [hmarks, escapeSubstitutions, ih]
    intro more hdollar hmore
    have hbrace : (escapeChar '\x60' (escapeChar '\\' rest)).head? = some '\x7b' := by
      rw [hmore, List.head?_cons]
    obtain ⟨more, rfl⟩ :=
      List.head?_eq_some_iff.mp (head?_of_escapeChar (head?_of_escapeChar hbrace))
    exact hsubstitution more hdollar rfl

/-- Escaped text starts with a brace only if the text does. -/
theorem head?_escapeAtOnce_append (htext : text.head? ≠ some '\x7b')
    (htail : tail.head? ≠ some '\x7b') : (escapeAtOnce text ++ tail).head? ≠ some '\x7b' := by
  fun_cases escapeAtOnce text with
  | case1 => exact htail
  | case2 => simp
  | case3 => simp
  | case4 => simp
  | case5 => simpa using htext

/-- The text of a literal is cooked to itself, whatever substitution or end follows. -/
theorem cooked?_escapeAtOnce (htext : '\r' ∉ text) (htail : tail.head? ≠ some '\x7b') :
    cooked? (escapeAtOnce text ++ tail) =
      (cooked? tail).map fun (value, after) => (text ++ value, after) := by
  fun_induction escapeAtOnce text with
  | case1 => simp
  | case2 rest ih | case3 rest ih =>
    have hrest := ih (List.not_mem_of_not_mem_cons htext)
    rw [List.cons_append, List.cons_append, cooked?_escaped (by decide), hrest, Option.map_map]
    rfl
  | case4 rest ih =>
    have hrest := ih (List.not_mem_of_not_mem_cons (List.not_mem_of_not_mem_cons htext))
    rw [List.cons_append, List.cons_append, List.cons_append, cooked?_escaped (by decide),
      cooked?_plain (by decide) (by simp) (by decide) (by decide), hrest, Option.map_map,
      Option.map_map]
    rfl
  | case5 c rest hbackslash hend hsubstitution ih =>
    have hrest := ih (List.not_mem_of_not_mem_cons htext)
    have hreturn : c ≠ '\r' := by
      rintro rfl
      exact htext List.mem_cons_self
    have hbrace : c = '$' → (escapeAtOnce rest ++ tail).head? ≠ some '\x7b' := by
      intro hc
      refine head?_escapeAtOnce_append ?_ htail
      intro hhead
      obtain ⟨more, rfl⟩ := List.head?_eq_some_iff.mp hhead
      exact hsubstitution more hc rfl
    rw [List.cons_append, cooked?_plain hend hbrace hbackslash hreturn, hrest, Option.map_map]
    rfl

/-- The text of a literal ends at the end of the template or at the next substitution. -/
theorem cooked?_literal (htext : '\r' ∉ text) (htail : ['\x60'] <+: tail ∨ ['$', '\x7b'] <+: tail) :
    cooked? (escapeTemplate text ++ tail) = some (text, tail) := by
  rw [escapeTemplate_eq]
  obtain ⟨hend, hbrace⟩ : cooked? tail = some ([], tail) ∧ tail.head? ≠ some '\x7b' := by
    rcases htail with ⟨rest, rfl⟩ | ⟨rest, rfl⟩ <;> simp [cooked?]
  rw [cooked?_escapeAtOnce htext hbrace, hend]
  simp

/-! ## Substitutions -/

/-- Names are read as the text of a substitution. -/
theorem source?_name {cs : List Char} (h : ∀ c ∈ cs, Identifier.isPart c = true)
    (rest : List Char) : source? 0 (cs ++ '\x7d' :: rest) = some (cs, rest) := by
  induction cs with
  | nil => rfl
  | cons c cs ih =>
    have hc : Identifier.isPart c = true := h c List.mem_cons_self
    have hmark : ∀ d, Identifier.isPart d = false → c ≠ d := by
      rintro d hd rfl
      exact Bool.false_ne_true (hd.symm.trans hc)
    have hquote := hmark '"' (by decide)
    have hapostrophe := hmark '\x27' (by decide)
    have hbacktick := hmark '\x60' (by decide)
    have hslash := hmark '/' (by decide)
    have hopening := hmark '\x7b' (by decide)
    have hclosing := hmark '\x7d' (by decide)
    have hdepth : openBraces 0 c = 0 := by
      rw [openBraces, if_neg hopening, if_neg hclosing]
    rw [List.cons_append, source?, if_neg (by simp [*]), if_neg (by simp [*]), hdepth,
      ih fun d hd => h d (List.mem_cons_of_mem c hd)]
    rfl

theorem template?_closed {rest : List Char} (h : cooked? cs = some (value, '\x60' :: rest)) :
    template? cs = some (⟨[String.ofList value], []⟩, rest) := by
  unfold template?
  split
  case h_1 hclosed =>
    obtain ⟨rfl, htail⟩ := Prod.mk.inj (Option.some.inj (hclosed.symm.trans h))
    obtain ⟨-, rfl⟩ := List.cons.inj htail
    rfl
  case h_2 hopened => exact absurd (hopened.symm.trans h) (by simp)
  case h_3 hnone _ => exact absurd h (hnone value rest)

theorem template?_substitution {rest source : List Char}
    (h : cooked? cs = some (value, '$' :: '\x7b' :: rest))
    (hsource : source? 0 rest = some (source, after)) :
    template? cs = (template? after).map fun (literal, after) =>
      (⟨String.ofList value :: literal.strings, String.ofList source :: literal.substitutions⟩,
        after) := by
  rw [template?]
  split
  case h_1 hclosed => exact absurd (hclosed.symm.trans h) (by simp)
  case h_2 hopened =>
    obtain ⟨rfl, htail⟩ := Prod.mk.inj (Option.some.inj (hopened.symm.trans h))
    obtain ⟨-, htail⟩ := List.cons.inj htail
    obtain ⟨-, rfl⟩ := List.cons.inj htail
    split
    case h_1 hnone => exact absurd (hnone.symm.trans hsource) (by simp)
    case h_2 hsome =>
      obtain ⟨rfl, rfl⟩ := Prod.mk.inj (Option.some.inj (hsome.symm.trans hsource))
      rfl
  case h_3 hnone => exact absurd h (hnone value rest)

end Emission

/-! ## Addresses -/

open Emission

namespace PathTemplate

variable (name : Symbol → String)

def addressChars (parts : List PathPart) : List Char :=
  (Expression.partsText name (parts.map Service.addressPart)).toList

theorem addressChars_literalPart_append (text : List Char) (parts : List PathPart) :
    addressChars name (literalPart text ++ parts) =
      escapeTemplate text ++ addressChars name parts := by
  unfold literalPart
  split
  case isTrue hempty =>
    rw [List.isEmpty_iff.mp hempty]
    rfl
  case isFalse =>
    simp [addressChars, Service.addressPart, Expression.partsText, templateText]

theorem addressChars_parameter (parameter : String) (pattern : Option String)
    (parts : List PathPart) : addressChars name (.parameter parameter pattern :: parts) =
      '$' :: '\x7b' ::
        ((Identifier.repair parameter).toList ++ '\x7d' :: addressChars name parts) := by
  simp [addressChars, Service.addressPart, Expression.partsText, Expression.code]

theorem splitOnP_literalPart (text : List Char) :
    (literalPart text).splitOnP (·.parameter?.isSome) = [literalPart text] := by
  unfold literalPart
  split <;> rfl

/-- The address of a path without CR is read as a template literal: its substitutions are the names
of the parameters, and its strings are the literal parts between them. -/
theorem template?_partsFrom {literal cs : List Char} (hliteral : '\r' ∉ literal) (hcs : '\r' ∉ cs) :
    ∃ strings : List String,
      template? (addressChars name (partsFrom literal cs) ++ ['\x60']) =
        some (⟨strings, ((partsFrom literal cs).filterMap (·.parameter?)).map Identifier.repair⟩,
          []) ∧ (partsFrom literal cs).splitOnP (·.parameter?.isSome) =
        strings.map (fun text => literalPart text.toList) ∧
      ((partsFrom literal cs).filterMap (·.parameter?) = [] →
        strings = [String.ofList (literal.reverse ++ cs)]) := by
  fun_induction partsFrom literal cs with
  | case1 literal =>
    have htext : '\r' ∉ literal.reverse := by rwa [List.mem_reverse]
    have hchars := addressChars_literalPart_append name literal.reverse []
    have hnames := filterMap_parameter?_literalPart_append literal.reverse []
    rw [List.append_nil] at hchars hnames
    refine ⟨[String.ofList literal.reverse], ?_, ?_, ?_⟩
    · rw [hchars, hnames, List.append_assoc]
      exact template?_closed (cooked?_literal htext (.inl List.prefix_rfl))
    · rw [splitOnP_literalPart, List.map_singleton, String.toList_ofList]
    · rw [List.append_nil]
      exact fun _ => rfl
  | case2 literal cs part rest hfound ih =>
    have hreads := reads_of_parameter? hfound
    obtain ⟨parameter, pattern, rfl, -⟩ := hreads.exists_parameter
    have htext : '\r' ∉ literal.reverse := by rwa [List.mem_reverse]
    have hrest : '\r' ∉ rest := fun hmem => hcs (List.mem_cons_of_mem _ (hreads.suffix.mem hmem))
    obtain ⟨strings, hread, hsplit, -⟩ := ih List.not_mem_nil hrest
    rw [filterMap_parameter?_literalPart_append]
    refine ⟨String.ofList literal.reverse :: strings, ?_, ?_, ?_⟩
    · have hcooked : ∀ more, cooked? (escapeTemplate literal.reverse ++ '$' :: '\x7b' :: more) =
          some (literal.reverse, '$' :: '\x7b' :: more) :=
        fun more => cooked?_literal htext (.inr ⟨more, rfl⟩)
      have hname : ∀ c ∈ (Identifier.repair parameter).toList, Identifier.isPart c = true :=
        fun c => Identifier.isPart_of_mem_repair
      have hsource := source?_name hname (addressChars name (partsFrom [] rest) ++ ['\x60'])
      rw [addressChars_literalPart_append, addressChars_parameter, List.append_assoc,
        List.cons_append, List.cons_append, List.append_assoc, List.cons_append,
        template?_substitution (hcooked _) hsource, hread, String.ofList_toList]
      rfl
    · rw [List.splitOnP_append_cons _ _ rfl, splitOnP_literalPart, hsplit, List.map_cons,
        String.toList_ofList]
      rfl
    · intro hnone
      cases hnone
  | case3 literal cs hnone ih =>
    have hbrace : '\r' ∉ '\x7b' :: literal := by simpa using hliteral
    simpa using ih hbrace (List.not_mem_of_not_mem_cons hcs)
  | case4 literal c cs hc ih =>
    have hliteral' : '\r' ∉ c :: literal := by
      rw [List.mem_cons, not_or]
      exact ⟨List.ne_of_not_mem_cons hcs, hliteral⟩
    simpa using ih hliteral' (List.not_mem_of_not_mem_cons hcs)

end PathTemplate

namespace Service

theorem toList_code_address (service : Service) (endpoint : Endpoint) (name : Symbol → String) :
    ((service.address endpoint).code name).toList =
      "uriEncoding".toList ++ '\x60' ::
        (PathTemplate.addressChars name (PathTemplate.parse (service.pathOf endpoint)).parts ++
          ['\x60']) := by
  simp [address, Expression.code, PathTemplate.addressChars, Expression.isCompound, parenthesizeIf]

/-- The address of an endpoint whose path has no CR is one template literal: its substitutions are
the parameters of the path, made identifiers, and each of its strings is the literal part of the
path between two parameters, or empty. Without parameters its only string is the path. -/
theorem address_reads_back (service : Service) (endpoint : Endpoint) (name : Symbol → String)
    (hpath : '\r' ∉ (service.pathOf endpoint).toList) :
    ∃ strings : List String,
      taggedTemplate? ((service.address endpoint).code name) =
        some ("uriEncoding", ⟨strings,
          (PathTemplate.parse (service.pathOf endpoint)).names.map Identifier.repair⟩) ∧
      (PathTemplate.parse (service.pathOf endpoint)).parts.splitOnP (·.parameter?.isSome) =
        strings.map (fun text => PathTemplate.literalPart text.toList) ∧
      ((PathTemplate.parse (service.pathOf endpoint)).names = [] →
        strings = [service.pathOf endpoint]) := by
  obtain ⟨strings, hread, hsplit, hnone⟩ :=
    PathTemplate.template?_partsFrom name List.not_mem_nil hpath
  have htag : ∀ c ∈ "uriEncoding".toList, decide (c ≠ '\x60') = true := by simp
  have hspan := fun cs => Alphabet.span_append_of_all htag
    fun c (hc : c ∈ ('\x60' :: cs).head?) => Option.some.inj hc ▸ rfl
  refine ⟨strings, ?_, hsplit, ?_⟩
  · rw [taggedTemplate?, toList_code_address, (hspan _).1, (hspan _).2]
    simp only [PathTemplate.parse, PathTemplate.names, hread, String.ofList_toList]
  · intro hnames
    rw [hnone hnames]
    simp

/-- An endpoint with the marks of template literals in its path. -/
def markedEndpoint : Endpoint where
  name := "photo"
  httpMethod := "GET"
  path := "$\x7bid\x7d\\n\x7bphoto-size : \\d\x7b2\x7d\x7d$"
  resource := "Photo"

/-- A service with such an endpoint. -/
def markedService : Service where
  application := { path := some "a`b", methods := [markedEndpoint] }
  settings := default
  mapper := default
  response := default

theorem address_reads_back_marked :
    '\r' ∉ (markedService.pathOf markedEndpoint).toList ∧
    ∃ strings : List String,
      taggedTemplate? ((markedService.address markedEndpoint).code fun _ => "") =
        some ("uriEncoding", ⟨strings, ["id", "photoSize"]⟩) ∧
      [[.literal "a`b/$"], [.literal "\\n"], [.literal "$"]] =
        strings.map (fun text => PathTemplate.literalPart text.toList) := by
  have hpath : '\r' ∉ (markedService.pathOf markedEndpoint).toList := by decide +kernel
  have hnames : (PathTemplate.parse (markedService.pathOf markedEndpoint)).names.map
      Identifier.repair = ["id", "photoSize"] := by decide +kernel
  have hparts : (PathTemplate.parse (markedService.pathOf markedEndpoint)).parts.splitOnP
      (·.parameter?.isSome) = [[.literal "a`b/$"], [.literal "\\n"], [.literal "$"]] := by
    decide +kernel
  obtain ⟨strings, hread, hsplit, -⟩ := address_reads_back markedService markedEndpoint
    (fun _ => "") hpath
  rw [hnames] at hread
  exact ⟨hpath, strings, hread, hparts.symm.trans hsplit⟩

end Service

end Typings
