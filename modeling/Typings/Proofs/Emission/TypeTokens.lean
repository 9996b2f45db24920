import Typings.Emission.TypeText
import Typings.Proofs.Emission.TypeGrammar
import Typings.Proofs.Type.Vocabulary

/-!
# The tokens of types

The text of a type is made of the texts of its parts, of names and of marks. No token extends over
two of these, so the tokens of the text are those of its pieces.

## Main definitions

* `Alphabet.Spells`: a text has the given tokens wherever no token is continued.
* `TypeExpr.Legible`: names are plain, numbers are in the format, and nothing is written as
  configured.
* `TypeExpr.spelling`: the tokens of a type in terms of those of its parts.
* `TypeExpr.tokens`: the tokens of the text of a type.

## Main results

* `TypeExpr.Legible.spells`: the tokens of a type do not depend on what follows it.
* `TypeExpr.Legible.tokens_eq`: the tokens of a type are its spelling.
-/

namespace Typings

open Emission

namespace Emission

namespace Alphabet

variable (A : Alphabet)

/-- Whether a text has the given tokens wherever no token is continued. -/
def Spells (text : String) (ts : List Token) : Prop :=
  ∀ rest, A.Ends rest → A.lex (text.toList ++ rest) = ts ++ A.lex rest

variable {A} {text : String} {ts : List Token}

theorem Spells.lex_eq (h : A.Spells text ts) : A.lex text.toList = ts := by
  simpa using h [] A.ends_nil

theorem spells_word (h : A.isWord text = true) : A.Spells text [.word text] :=
  fun _ hrest => A.lex_word h hrest

/-- The words of the first 128 characters are words of every alphabet. -/
theorem isWord_of_ascii (hascii : text.toList.all (·.toNat < 128) = true)
    (h : ascii.isWord text = true) : A.isWord text = true := by
  unfold isWord at h ⊢
  cases hlist : text.toList with
  | nil => simp [hlist] at h
  | cons c cs =>
    rw [hlist] at h hascii
    simp only [List.all_cons, Bool.and_eq_true, decide_eq_true_iff, List.all_eq_true] at h hascii ⊢
    refine ⟨?_, ?_⟩
    · rw [A.isStart_ascii c hascii.1]
      exact h.1
    · intro d hd
      rw [A.isPart_ascii d (hascii.2 d hd)]
      exact h.2 d hd

theorem spells_keyword (text : String) (hascii : text.toList.all (·.toNat < 128) = true)
    (h : ascii.isWord text = true) : A.Spells text [.word text] :=
  spells_word (isWord_of_ascii hascii h)

/-- Whether a text is a word without a meaning of its own in types. -/
def IsPlain (A : Alphabet) (text : String) : Prop :=
  A.isWord text = true ∧ isTypeName text = true

end Alphabet

/-- Tokens in parentheses, if they are wanted. -/
def parenthesizedIf (wanted : Bool) (ts : List Token) : List Token :=
  if wanted then .mark '(' :: (ts ++ [.mark ')']) else ts

/-- Groups of tokens with a mark between them. -/
def separatedBy (c : Char) (groups : List (List Token)) : List Token :=
  List.intercalate [.mark c] groups

namespace Alphabet

variable {A : Alphabet} {text : String} {ts : List Token}

theorem Spells.parenthesizeIf (h : A.Spells text ts) (wanted : Bool) :
    A.Spells (parenthesizeIf wanted text) (parenthesizedIf wanted ts) := by
  cases wanted with
  | false => exact h
  | true =>
    intro rest hrest
    have hinner := h (')' :: rest) (A.ends_punctuation (by decide) rest)
    rw [A.lex_punctuation (by decide)] at hinner
    simp [Emission.parenthesizeIf, parenthesizedIf,
      A.lex_punctuation (c := '(') (by decide), hinner]

/-- Texts with a separator between them. -/
theorem spells_intercalate {α : Type} {separator : String} {c : Char}
    (hends : ∀ rest, A.Ends (separator.toList ++ rest))
    (hlex : ∀ rest, A.lex (separator.toList ++ rest) = .mark c :: A.lex rest) {xs : List α}
    {f : α → String} {g : α → List Token} (h : ∀ x ∈ xs, A.Spells (f x) (g x)) :
    A.Spells (String.intercalate separator (xs.map f)) (separatedBy c (xs.map g)) := by
  unfold separatedBy
  induction xs with
  | nil =>
    intro rest _
    simp
  | cons x xs ih =>
    have hx := h x List.mem_cons_self
    cases xs with
    | nil => simpa using hx
    | cons y ys =>
      have hys := ih fun z hz => h z (List.mem_cons_of_mem x hz)
      intro rest hrest
      have htail := hys rest hrest
      rw [String.toList_intercalate] at htail ⊢
      simp only [List.map_cons, List.intercalate_cons_cons, List.append_assoc] at htail ⊢
      rw [hx _ (hends _), hlex, htail]
      rfl

end Alphabet

end Emission

namespace TypeExpr

/-! ## Parts that are written

An optional field is marked at its name, so only what is inside the `optional` is written for it. -/

def writtenParts : TypeExpr → List TypeExpr
  | shape fields => fields.map (·.2.present)
  | function params result => params.map (·.2.present) ++ [result]
  | t => t.parts

variable {t p : TypeExpr}

/-- What is written in a type is a part of it, or what is inside a part that is optional. -/
theorem exists_part_of_mem_writtenParts (hp : p ∈ t.writtenParts) :
    ∃ q ∈ t.parts, p = q ∨ p = q.present := by
  cases t with
  | shape fields =>
    obtain ⟨field, hfield, rfl⟩ := List.mem_map.mp hp
    exact ⟨field.2, List.mem_map_of_mem hfield, .inr rfl⟩
  | function params result =>
    rcases List.mem_append.mp hp with hp | hp
    · obtain ⟨param, hparam, rfl⟩ := List.mem_map.mp hp
      exact ⟨param.2, List.mem_append_left _ (List.mem_map_of_mem hparam), .inr rfl⟩
    · exact ⟨p, List.mem_append_right _ hp, .inl rfl⟩
  | _ => exact ⟨p, hp, .inl rfl⟩

/-- What holds of a type whenever it holds of the parts that are written in it holds of every
type. -/
@[elab_as_elim]
theorem writtenInduction {motive : TypeExpr → Prop}
    (step : ∀ t : TypeExpr, (∀ p ∈ t.writtenParts, motive p) → motive t) (t : TypeExpr) :
    motive t := by
  have hboth : motive t ∧ motive t.present := by
    induction t using partsInduction with
    | step t ih =>
      have hwritten : ∀ p ∈ t.writtenParts, motive p := by
        intro p hp
        obtain ⟨q, hq, rfl | rfl⟩ := exists_part_of_mem_writtenParts hp
        · exact (ih p hq).1
        · exact (ih q hq).2
      refine ⟨step t hwritten, ?_⟩
      cases t with
      | optional inner => exact (ih inner (List.mem_singleton_self inner)).1
      | _ => exact step _ hwritten
  exact hboth.1

theorem mem_nodes_of_mem_writtenParts {u : TypeExpr} (hp : p ∈ t.writtenParts) (hu : u ∈ p.nodes) :
    u ∈ t.nodes := by
  rw [nodes_eq, List.mem_cons, List.mem_flatMap]
  obtain ⟨q, hq, rfl | rfl⟩ := exists_part_of_mem_writtenParts hp
  · exact .inr ⟨p, hq, hu⟩
  · refine .inr ⟨q, hq, ?_⟩
    cases q with
    | optional inner => exact List.mem_cons_of_mem _ hu
    | _ => exact hu

variable (A : Alphabet) (name : Symbol → String)

/-- Whether a type can be read at all: its names are plain, its numbers are numbers of the format,
and no text is written as configured. -/
structure Legible (t : TypeExpr) : Prop where
  reference : ∀ symbol args, reference symbol args ∈ t.nodes → A.IsPlain (name symbol)
  var : ∀ parameter, var parameter ∈ t.nodes → A.IsPlain parameter
  parameter : ∀ params result, function params result ∈ t.nodes → ∀ p ∈ params, A.IsPlain p.1
  number : ∀ x, literal (.number x) ∈ t.nodes → x.InFormat
  verbatim : ∀ text, verbatim text ∉ t.nodes

theorem Legible.part {A : Alphabet} {name : Symbol → String} (h : t.Legible A name)
    (hp : p ∈ t.writtenParts) :
    p.Legible A name where
  reference symbol args hu := h.reference symbol args (mem_nodes_of_mem_writtenParts hp hu)
  var parameter hu := h.var parameter (mem_nodes_of_mem_writtenParts hp hu)
  parameter params result hu := h.parameter params result (mem_nodes_of_mem_writtenParts hp hu)
  number x hu := h.number x (mem_nodes_of_mem_writtenParts hp hu)
  verbatim text hu := h.verbatim text (mem_nodes_of_mem_writtenParts hp hu)

/-! ## Spelling -/

/-- The tokens of a field or of a parameter, with those of its name and of its type. -/
def fieldSpelling (label : String → List Token) (ts : TypeExpr → List Token)
    (field : String × TypeExpr) : List Token :=
  label field.1 ++ (optionalMark field.2.isOptional ++ .mark ':' :: ts field.2.present)

def literalSpelling : Literal → List Token
  | .text s => [.string s]
  | .number x => (if x.negative then [.mark '-'] else []) ++ [.number { x with negative := false }]
  | .boolean b => [.word (if b then "true" else "false")]

/-- The tokens of a type, with those of the parts that are written in it. -/
def spelling (ts : TypeExpr → List Token) : TypeExpr → List Token
  | reference symbol [] => [.word (name symbol)]
  | reference symbol args =>
    .word (name symbol) :: .mark '<' :: (separatedBy ',' (args.map ts) ++ [.mark '>'])
  | union [] => [.word "never"]
  | union [single] => ts single
  | union members => separatedBy '|' (members.map fun t => parenthesizedIf t.isFunction (ts t))
  | intersection [] => [.word "unknown"]
  | intersection [single] => ts single
  | intersection members =>
    separatedBy '&' (members.map fun t => parenthesizedIf (isLooserThanIntersection t) (ts t))
  | optional inner => parenthesizedIf inner.isFunction (ts inner) ++ [.mark '|', .word "undefined"]
  | array element => parenthesizedIf (isLooserThanArray element) (ts element) ++ brackets 1
  | indexed key value =>
    .mark '\x7b' :: .mark '[' :: .word "index" :: .mark ':' ::
      (ts key ++ .mark ']' :: .mark ':' :: (ts value ++ [.mark '\x7d']))
  | shape [] => [.mark '\x7b', .mark '\x7d']
  | shape fields =>
    .mark '\x7b' ::
      (separatedBy ',' (fields.map (fieldSpelling (fun n => A.lex (propertyName n).toList) ts)) ++
        [.mark '\x7d'])
  | function params result =>
    .mark '(' :: (separatedBy ',' (params.map (fieldSpelling (fun n => [.word n]) ts)) ++
      .mark ')' :: .arrow :: ts result)
  | literal value => literalSpelling value
  | var parameter => [.word parameter]
  | primitive kind => [.word (primitiveText kind)]
  | verbatim _ => []
  | any => [.word "any"]

theorem labelled_eq_present (label : String) (t : TypeExpr) :
    t.labelled name label =
      label ++ (if t.isOptional then "?: " else ": ") ++ t.present.text name := by
  cases t <;> rfl

section Spells

variable {A : Alphabet} {name : Symbol → String} {ts : TypeExpr → List Token}

attribute [local simp] text spelling

theorem spells_comma {α : Type} {xs : List α} {f : α → String} {g : α → List Token}
    (h : ∀ x ∈ xs, A.Spells (f x) (g x)) :
    A.Spells (String.intercalate ", " (xs.map f)) (separatedBy ',' (xs.map g)) := by
  apply Alphabet.spells_intercalate _ _ h
  · intro rest
    exact A.ends_punctuation (by decide) _
  · intro rest
    show A.lex (',' :: ' ' :: rest) = _
    rw [A.lex_punctuation (by decide), A.lex_blank]

theorem spells_field (label : String → String) {labelTokens : String → List Token}
    {field : String × TypeExpr} (hlabel : A.Spells (label field.1) (labelTokens field.1))
    (h : A.Spells (field.2.present.text name) (ts field.2.present)) :
    A.Spells (field.2.labelled name (label field.1)) (fieldSpelling labelTokens ts field) := by
  intro rest hrest
  rw [labelled_eq_present, fieldSpelling]
  cases field.2.isOptional with
  | false =>
    have hmark := hlabel (':' :: ' ' :: ((field.2.present.text name).toList ++ rest))
      (A.ends_punctuation (by decide) _)
    rw [A.lex_punctuation (by decide), A.lex_blank, h rest hrest] at hmark
    simpa [optionalMark] using hmark
  | true =>
    have hmark := hlabel ('?' :: ':' :: ' ' :: ((field.2.present.text name).toList ++ rest))
      (A.ends_punctuation (by decide) _)
    rw [A.lex_punctuation (by decide), A.lex_punctuation (by decide), A.lex_blank,
      h rest hrest] at hmark
    simpa [optionalMark] using hmark

theorem spells_literal {value : Literal} (h : ∀ x, value = .number x → x.InFormat) :
    A.Spells (literalText value) (literalSpelling value) := by
  intro rest hrest
  cases value with
  | text s => exact A.lex_quote s rest
  | number x =>
    rw [literalText, literalSpelling, A.lex_number (h x rfl) hrest, List.append_assoc]
    rfl
  | boolean b =>
    cases b with
    | false => exact Alphabet.spells_keyword "false" (by decide) (by decide) rest hrest
    | true => exact Alphabet.spells_keyword "true" (by decide) (by decide) rest hrest

/-- A name with type arguments. -/
theorem spells_reference {symbol : Symbol} {args : List TypeExpr} (hname : A.IsPlain (name symbol))
    (h : ∀ p ∈ args, A.Spells (p.text name) (ts p)) :
    A.Spells ((reference symbol args).text name) (spelling A name ts (reference symbol args)) := by
  cases args with
  | nil => exact Alphabet.spells_word hname.1
  | cons arg args =>
    intro rest hrest
    have hargs := spells_comma h ('>' :: rest) (A.ends_punctuation (by decide) rest)
    have hword := Alphabet.spells_word hname.1
      ('<' :: ((String.intercalate ", " ((arg :: args).map (text name))).toList ++ '>' :: rest))
      (A.ends_punctuation (by decide) _)
    rw [A.lex_punctuation (by decide), hargs, A.lex_punctuation (by decide)] at hword
    simpa using hword

variable {members : List TypeExpr}

/-- The members of a union or of an intersection. -/
theorem spells_members {separator : String} {c : Char}
    (hseparator : separator.toList = [' ', c, ' ']) (hc : c ∈ punctuation)
    (test : TypeExpr → Bool) (h : ∀ p ∈ members, A.Spells (p.text name) (ts p)) :
    A.Spells (String.intercalate separator
      (members.map fun t => parenthesizeIf (test t) (t.text name)))
      (separatedBy c (members.map fun t => parenthesizedIf (test t) (ts t))) := by
  apply Alphabet.spells_intercalate
  · intro rest
    rw [hseparator]
    exact A.ends_blank _
  · intro rest
    rw [hseparator]
    show A.lex (' ' :: c :: ' ' :: rest) = _
    rw [A.lex_blank, A.lex_punctuation hc, A.lex_blank]
  · intro t ht
    exact (h t ht).parenthesizeIf (test t)

theorem spells_union (h : ∀ p ∈ members, A.Spells (p.text name) (ts p)) :
    A.Spells ((union members).text name) (spelling A name ts (union members)) := by
  match members with
  | [] => exact Alphabet.spells_keyword "never" (by decide) (by decide)
  | [single] => exact h single (List.mem_singleton_self single)
  | first :: second :: rest =>
    rw [text, unionTexts_eq_map]
    exact spells_members rfl (by decide) isFunction h

theorem spells_intersection (h : ∀ p ∈ members, A.Spells (p.text name) (ts p)) :
    A.Spells ((intersection members).text name) (spelling A name ts (intersection members)) := by
  match members with
  | [] => exact Alphabet.spells_keyword "unknown" (by decide) (by decide)
  | [single] => exact h single (List.mem_singleton_self single)
  | first :: second :: rest =>
    rw [text, intersectionTexts_eq_map]
    exact spells_members rfl (by decide) isLooserThanIntersection h

theorem spells_optional {inner : TypeExpr} (h : A.Spells (inner.text name) (ts inner)) :
    A.Spells ((optional inner).text name) (spelling A name ts (optional inner)) := by
  intro rest hrest
  have hinner :=
    h.parenthesizeIf inner.isFunction (' ' :: '|' :: ' ' :: ("undefined".toList ++ rest))
    (A.ends_blank _)
  have hundefined : A.Spells "undefined" [.word "undefined"] :=
    Alphabet.spells_keyword _ (by decide) (by decide)
  rw [A.lex_blank, A.lex_punctuation (by decide), A.lex_blank, hundefined rest hrest] at hinner
  simpa using hinner

theorem spells_array {element : TypeExpr} (h : A.Spells (element.text name) (ts element)) :
    A.Spells ((array element).text name) (spelling A name ts (array element)) := by
  intro rest hrest
  have helement := h.parenthesizeIf (isLooserThanArray element) ('[' :: ']' :: rest)
    (A.ends_punctuation (by decide) _)
  rw [A.lex_punctuation (by decide), A.lex_punctuation (by decide)] at helement
  simpa [brackets] using helement

theorem spells_indexed {key value : TypeExpr} (h : A.Spells (key.text name) (ts key))
    (h' : A.Spells (value.text name) (ts value)) :
    A.Spells ((indexed key value).text name) (spelling A name ts (indexed key value)) := by
  intro rest hrest
  have hindex : A.Spells "index" [.word "index"] :=
    Alphabet.spells_keyword _ (by decide) (by decide)
  have hvalue := h' (' ' :: '\x7d' :: rest) (A.ends_blank _)
  have hkey := h (']' :: ':' :: ' ' :: ((value.text name).toList ++ ' ' :: '\x7d' :: rest))
    (A.ends_punctuation (by decide) _)
  have hopen := hindex (':' :: ' ' :: ((key.text name).toList ++
    ']' :: ':' :: ' ' :: ((value.text name).toList ++ ' ' :: '\x7d' :: rest)))
    (A.ends_punctuation (by decide) _)
  simp (disch := decide) only [A.lex_punctuation, A.lex_blank] at hvalue hkey hopen
  rw [hkey, hvalue] at hopen
  have htext : ((indexed key value).text name).toList ++ rest = '\x7b' :: ' ' :: '[' ::
      ("index".toList ++ ':' :: ' ' :: ((key.text name).toList ++
        ']' :: ':' :: ' ' :: ((value.text name).toList ++ ' ' :: '\x7d' :: rest))) := by
    simp
  rw [htext]
  simp (disch := decide) only [A.lex_punctuation, A.lex_blank]
  rw [hopen]
  simp

theorem spells_shape {fields : List (String × TypeExpr)}
    (h : ∀ field ∈ fields, A.Spells (field.2.present.text name) (ts field.2.present)) :
    A.Spells ((shape fields).text name) (spelling A name ts (shape fields)) := by
  intro rest hrest
  cases fields with
  | nil =>
    have htext : ((shape []).text name).toList ++ rest = '\x7b' :: '\x7d' :: rest := by simp
    rw [htext, A.lex_punctuation (by decide), A.lex_punctuation (by decide)]
    rfl
  | cons field fields =>
    have hlabelled : ∀ f ∈ field :: fields, A.Spells (f.2.labelled name (propertyName f.1))
        (fieldSpelling (fun n => A.lex (propertyName n).toList) ts f) := by
      intro f hf
      exact spells_field propertyName (fun _ => A.lex_propertyName f.1) (h f hf)
    have hrow := spells_comma hlabelled (' ' :: '\x7d' :: rest) (A.ends_blank _)
    simp (disch := decide) only [A.lex_punctuation, A.lex_blank] at hrow
    have htext : ((shape (field :: fields)).text name).toList ++ rest = '\x7b' :: ' ' ::
        ((String.intercalate ", " ((field :: fields).map fun field =>
          field.2.labelled name (propertyName field.1))).toList ++ ' ' :: '\x7d' :: rest) := by
      simp [fieldTexts_eq_map]
    rw [htext]
    simp (disch := decide) only [A.lex_punctuation, A.lex_blank]
    rw [hrow]
    simp

theorem spells_function {params : List (String × TypeExpr)} {result : TypeExpr}
    (hparams : ∀ p ∈ params, A.IsPlain p.1)
    (h : ∀ p ∈ params, A.Spells (p.2.present.text name) (ts p.2.present))
    (h' : A.Spells (result.text name) (ts result)) :
    A.Spells ((function params result).text name)
      (spelling A name ts (function params result)) := by
  intro rest hrest
  have hlabelled : ∀ p ∈ params, A.Spells (p.2.labelled name p.1)
      (fieldSpelling (fun n => [.word n]) ts p) := by
    intro p hp
    exact spells_field id (Alphabet.spells_word (hparams p hp).1) (h p hp)
  have hrow := spells_comma hlabelled
    (')' :: ' ' :: '=' :: '>' :: ' ' :: ((result.text name).toList ++ rest))
    (A.ends_punctuation (by decide) _)
  simp (disch := decide) only [A.lex_punctuation, A.lex_blank, A.lex_arrow] at hrow
  rw [h' rest hrest] at hrow
  have htext : ((function params result).text name).toList ++ rest = '(' ::
      ((String.intercalate ", " (params.map fun p => p.2.labelled name p.1)).toList ++
        ')' :: ' ' :: '=' :: '>' :: ' ' :: ((result.text name).toList ++ rest)) := by
    simp [fieldTexts_eq_map]
  rw [htext, A.lex_punctuation (by decide), hrow]
  simp

/-- A type is spelled by its marks and names and by what spells its parts. -/
theorem Legible.spells_of_parts {t : TypeExpr} (ht : t.Legible A name)
    (h : ∀ p ∈ t.writtenParts, A.Spells (p.text name) (ts p)) :
    A.Spells (t.text name) (spelling A name ts t) := by
  cases t with
  | reference symbol args =>
    exact spells_reference (ht.reference symbol args (self_mem_nodes _)) h
  | union members => exact spells_union h
  | intersection members => exact spells_intersection h
  | optional inner => exact spells_optional (h inner (List.mem_singleton_self inner))
  | array element => exact spells_array (h element (List.mem_singleton_self element))
  | indexed key value =>
    apply spells_indexed
    · exact h key (by simp [writtenParts, parts])
    · exact h value (by simp [writtenParts, parts])
  | shape fields => exact spells_shape fun field hfield => h _ (List.mem_map_of_mem hfield)
  | function params result =>
    apply spells_function (ht.parameter params result (self_mem_nodes _))
    · intro p hp
      exact h _ (List.mem_append_left _ (List.mem_map_of_mem hp))
    · exact h result (List.mem_append_right _ (List.mem_singleton_self result))
  | literal value =>
    apply spells_literal
    rintro x rfl
    exact ht.number x (self_mem_nodes _)
  | var parameter => exact Alphabet.spells_word (ht.var parameter (self_mem_nodes _)).1
  | primitive kind =>
    have hascii : (primitiveText kind).toList.all (·.toNat < 128) = true := by cases kind <;> decide
    have hword : Alphabet.ascii.isWord (primitiveText kind) = true := by cases kind <;> decide
    exact Alphabet.spells_keyword _ hascii hword
  | verbatim text => exact absurd (self_mem_nodes _) (ht.verbatim text)
  | any => exact Alphabet.spells_keyword "any" (by decide) (by decide)

end Spells

def tokens (t : TypeExpr) : List Token :=
  A.lex (t.text name).toList

variable {A name}

/-- No token extends beyond the text of a type. -/
theorem Legible.spells (ht : t.Legible A name) : A.Spells (t.text name) (t.tokens A name) := by
  induction t using writtenInduction with
  | step t ih =>
    have hspells := ht.spells_of_parts fun p hp => ih p hp (ht.part hp)
    rwa [tokens, hspells.lex_eq]

/-- The tokens of a type in terms of those of its parts. -/
theorem Legible.tokens_eq (ht : t.Legible A name) :
    t.tokens A name = spelling A name (tokens A name) t :=
  (ht.spells_of_parts fun _ hp => (ht.part hp).spells).lex_eq

end TypeExpr

end Typings
