import Typings.Identifier
import Typings.Text.Blank
import Typings.Text.Word

/-!
# Path templates

A path of an endpoint holds parameters in braces, such as `people/{id}/photos/{size : \d{2,3}}`. A
parameter is a name, possibly with blanks around it and with a pattern after a colon. The pattern
starts with a run without blanks and braces, which groups in braces may follow. What does not have
this form is literal text.

## Main definitions

* `PathPart`, `PathTemplate`: parts and templates.
* `PathTemplate.parse`: the template of a path.
* `PathTemplate.format`: a template as text, with chosen delimiters.
* `joinPaths`: a path below another path.
-/

namespace Typings

/-- A part of a path template. -/
inductive PathPart where
  | literal (text : String)
  /-- A parameter with the pattern that its values match. -/
  | parameter (name : String) (pattern : Option String)
  deriving Repr, DecidableEq, Inhabited

/-- A path with parameters. -/
structure PathTemplate where
  parts : List PathPart
  deriving Repr, DecidableEq, Inhabited

namespace PathTemplate

/-- Whether a character may stand in a parameter name after its first one. -/
def isNamePart (c : Char) : Bool :=
  Text.isWord c || c = '.' || c = '-'

/-- Whether a character is no brace. -/
def isPlain (c : Char) : Bool :=
  c ≠ '\x7b' && c ≠ '\x7d'

/-- Whether a pattern may start with the character. -/
def isPatternStart (c : Char) : Bool :=
  isPlain c && !Text.isBlank c

/-- Drops leading blanks. -/
def skipBlanks (cs : List Char) : List Char :=
  cs.dropWhile Text.isBlank

theorem length_dropWhile_le {α : Type} (p : α → Bool) (l : List α) :
    (l.dropWhile p).length ≤ l.length :=
  (List.dropWhile_sublist p).length_le

theorem length_lt_of_dropWhile_eq_cons {α : Type} {p : α → Bool} {l rest : List α} {a : α}
    (h : l.dropWhile p = a :: rest) : rest.length < l.length := by
  have le := length_dropWhile_le p l
  rw [h] at le
  exact le

/-- The groups in braces at the start of a text, each with the plain text after it, and what follows
them. -/
def braceGroups : List Char → List Char × List Char
  | [] => ([], [])
  | c :: cs =>
    if c = '\x7b' then
      match _closing : cs.dropWhile isPlain with
      | '\x7d' :: rest =>
        let (more, after) := braceGroups (rest.dropWhile isPlain)
        (c :: cs.takeWhile isPlain ++ '\x7d' :: rest.takeWhile isPlain ++ more, after)
      -- a group that is not closed, or holds another brace, is none
      | _ => ([], c :: cs)
    else ([], c :: cs)
termination_by cs => cs.length
decreasing_by
  have lt := length_lt_of_dropWhile_eq_cons _closing
  have le := length_dropWhile_le isPlain rest
  simp only [List.length_cons]
  omega

/-- A pattern and the closing brace after it, from the text after the colon. -/
def pattern? (cs : List Char) : Option (String × List Char) :=
  let cs := skipBlanks cs
  let start := cs.takeWhile isPatternStart
  let (groups, after) := braceGroups (cs.dropWhile isPatternStart)
  match start, skipBlanks after with
  | _ :: _, '\x7d' :: rest => some (String.ofList (start ++ groups), rest)
  | _, _ => none

/-- A parameter, from the text after its opening brace, and what follows it. -/
def parameter? (cs : List Char) : Option (PathPart × List Char) :=
  match skipBlanks cs with
  | [] => none
  | c :: cs =>
    if Text.isWord c then
      let name := String.ofList (c :: cs.takeWhile isNamePart)
      match skipBlanks (cs.dropWhile isNamePart) with
      | '\x7d' :: rest => some (.parameter name none, rest)
      | ':' :: rest =>
        (pattern? rest).map fun (pattern, rest) => (.parameter name (some pattern), rest)
      | _ => none
    else none

/-- A literal part, unless it is empty. -/
def literalPart (text : List Char) : List PathPart :=
  if text.isEmpty then [] else [.literal (String.ofList text)]

theorem length_braceGroups_le (cs : List Char) : (braceGroups cs).2.length ≤ cs.length := by
  fun_induction braceGroups cs with
  | case1 => simp
  | case2 cs rest closing more after eq ih =>
    have lt := length_lt_of_dropWhile_eq_cons closing
    have le := length_dropWhile_le isPlain rest
    simp only [eq] at ih
    simp only [List.length_cons]
    omega
  | case3 => simp
  | case4 => simp

theorem length_lt_of_pattern? {cs rest : List Char} {pattern : String}
    (h : pattern? cs = some (pattern, rest)) : rest.length < cs.length := by
  simp only [pattern?] at h
  split at h
  · rename_i closing
    simp only [Option.some.injEq, Prod.mk.injEq] at h
    have lt := length_lt_of_dropWhile_eq_cons closing
    have groups := length_braceGroups_le ((skipBlanks cs).dropWhile isPatternStart)
    have start := length_dropWhile_le isPatternStart (skipBlanks cs)
    have blanks := length_dropWhile_le Text.isBlank cs
    rw [← h.2]
    simp only [skipBlanks] at *
    omega
  · simp at h

theorem length_lt_of_parameter? {cs rest : List Char} {part : PathPart}
    (h : parameter? cs = some (part, rest)) : rest.length < cs.length := by
  unfold parameter? at h
  split at h
  · simp at h
  · rename_i c tail start
    have first := length_lt_of_dropWhile_eq_cons start
    have name := length_dropWhile_le isNamePart tail
    split at h
    · simp only at h
      split at h
      · rename_i closing
        have lt := length_lt_of_dropWhile_eq_cons closing
        simp only [Option.some.injEq, Prod.mk.injEq] at h
        rw [← h.2]
        omega
      · rename_i colon
        have lt := length_lt_of_dropWhile_eq_cons colon
        obtain ⟨⟨pattern, after⟩, found, eq⟩ := Option.map_eq_some_iff.mp h
        have last := length_lt_of_pattern? found
        simp only [Prod.mk.injEq] at eq
        rw [← eq.2]
        omega
      · simp at h
    · simp at h

/-- The parts of a text; `literal` is the literal text before it, reversed. -/
def partsFrom (literal : List Char) : List Char → List PathPart
  | [] => literalPart literal.reverse
  | c :: cs =>
    if c = '\x7b' then
      match _found : parameter? cs with
      | some (part, rest) => literalPart literal.reverse ++ part :: partsFrom [] rest
      | none => partsFrom (c :: literal) cs
    else partsFrom (c :: literal) cs
termination_by cs => cs.length
decreasing_by
  · have lt := length_lt_of_parameter? _found
    simp only [List.length_cons]
    omega
  · simp
  · simp

def parse (path : String) : PathTemplate :=
  ⟨partsFrom [] path.toList⟩

/-- A part as text. The name of a parameter is made an identifier. -/
def formatPart (left right : String) (withPatterns : Bool) : PathPart → String
  | .literal text => text
  | .parameter name pattern =>
    left ++ Identifier.repair name ++
      (match withPatterns, pattern with
        | true, some pattern => ":" ++ pattern
        | _, _ => "") ++ right

/-- A template as text, with its parameters between the given delimiters. -/
def format (template : PathTemplate) (left right : String) (withPatterns : Bool) : String :=
  String.join (template.parts.map (formatPart left right withPatterns))

/-- The part of a method name that tells paths apart: slashes become underscores, and other
characters than ASCII letters, digits and underscores are left out. -/
def nameSuffix (template : PathTemplate) : String :=
  let name := (template.format "" "" false).toList.map fun c => if c = '/' then '_' else c
  String.ofList (name.filter fun c => c.isAlphanum || c = '_')

end PathTemplate

/-- The text without leading slashes. -/
def dropLeadingSlashes (path : String) : String :=
  String.ofList (path.toList.dropWhile (· = '/'))

/-- The text without slashes at its ends. -/
def dropOuterSlashes (path : String) : String :=
  String.ofList (((path.toList.dropWhile (· = '/')).reverse.dropWhile (· = '/')).reverse)

/-- A path below another path, with one slash between them. -/
def joinPaths (base : Option String) (path : String) : String :=
  let base := (base.map dropOuterSlashes).getD ""
  let path := dropLeadingSlashes path
  if base.isEmpty then path
  else if path.isEmpty then base
  else base ++ "/" ++ path

end Typings
