import Typings.Proofs.Emission.Token

/-!
# The grammar of types

The types of the target language as token sequences. Brackets bind tighter than `&`, which binds
tighter than `|`, which binds tighter than the arrow of a function type; parentheses make a type of
any kind one that binds tightest.

The grammar is unambiguous: a reader that looks at most three tokens ahead finds every derivation.
What starts with a parenthesis is a function type iff the parenthesis closes at once or a name and a
colon or question mark follow.

## Main definitions

* `TypeTree`: the structure of a type.
* `Reads`: the grammar.
* `TypeTree.required`: the number of opening parentheses that the text of a type has at least.

## Main results

* `Reads.unique`: tokens are read in one way.
* `Reads.required_le`: where parentheses are needed, they stand.
* `Reads.mem_punctuation`: the marks of types.
-/

namespace Typings.Emission

/-- The structure of a type. Fields and parameters say whether a question mark follows their
name. -/
inductive TypeTree where
  | keyword (word : String)
  | named (name : String) (args : List TypeTree)
  | literal (value : Literal)
  | array (element : TypeTree)
  | object (fields : List (String × Bool × TypeTree))
  /-- An object with a value for every key. -/
  | index (key value : TypeTree)
  | function (params : List (String × Bool × TypeTree)) (result : TypeTree)
  | union (members : List TypeTree)
  | intersection (members : List TypeTree)

/-- How tight a type binds, from function types to types that need no parentheses anywhere. -/
inductive Precedence where
  | type
  | union
  | intersection
  | array
  | primary
  deriving DecidableEq

/-- The levels in increasing order. -/
def Precedence.toNat : Precedence → Nat
  | type => 0
  | union => 1
  | intersection => 2
  | array => 3
  | primary => 4

/-- Types in a row: the arguments of a name, the members of a union or those of an intersection. -/
inductive Row where
  | arguments
  | alternatives
  | operands
  deriving DecidableEq

/-- The mark between the types of a row. -/
def Row.separator : Row → Char
  | arguments => ','
  | alternatives => '|'
  | operands => '&'

/-- How tight the types of a row bind at least. -/
def Row.level : Row → Precedence
  | arguments => .type
  | alternatives => .intersection
  | operands => .array

/-- What named types belong to. -/
inductive Owner where
  | object
  | function
  deriving DecidableEq

/-- The name that a token gives to a field or to a parameter. -/
def Owner.label? : Owner → Token → Option String
  | object, .word w => some w
  | object, .string s => some s
  | function, .word w => if isReservedWord w then none else some w
  | _, _ => none

/-- The words that are types. -/
def keywordTypes : List String :=
  ["any", "unknown", "never", "void", "null", "undefined", "string", "number", "boolean", "bigint",
   "symbol", "object", "Date"]

/-- The words that have a meaning of their own in types. -/
def typeWords : List String :=
  keywordTypes ++ ["true", "false", "keyof", "unique", "readonly", "infer", "typeof",
    "asserts", "is", "abstract", "new", "this", "import"]

def isTypeName (word : String) : Bool :=
  !typeWords.contains word && !isReservedWord word

theorem isTypeName_facts {w : String} (h : isTypeName w = true) :
    w ∉ keywordTypes ∧ w ≠ "true" ∧ w ≠ "false" := by
  have hwords : w ∉ typeWords := by
    simpa using (Bool.and_eq_true_iff.mp h).1
  rw [typeWords, List.mem_append, not_or] at hwords
  refine ⟨hwords.1, ?_, ?_⟩
  · rintro rfl
    exact hwords.2 (by decide)
  · rintro rfl
    exact hwords.2 (by decide)

namespace TypeTree

/-- How tight a type binds. -/
def level : TypeTree → Precedence
  | function _ _ => .type
  | union _ => .union
  | intersection _ => .intersection
  | array _ => .array
  | _ => .primary

/-- The union of some types; one type stands alone. -/
def unionOf : List TypeTree → TypeTree
  | [c] => c
  | cs => union cs

/-- The intersection of some types; one type stands alone. -/
def intersectionOf : List TypeTree → TypeTree
  | [c] => c
  | cs => intersection cs

/-- A type with a number of brackets after it. -/
def arrays (c : TypeTree) : Nat → TypeTree
  | 0 => c
  | k + 1 => c.array.arrays k

end TypeTree

/-- What tokens are read as. -/
inductive Phrase where
  /-- A type that binds as tight as the level, or tighter. -/
  | type (level : Precedence) (tree : TypeTree)
  | row (kind : Row) (trees : List TypeTree)
  | field (owner : Owner) (field : String × Bool × TypeTree)
  | fields (owner : Owner) (fields : List (String × Bool × TypeTree))

/-- Pairs of brackets. -/
def brackets : Nat → List Token
  | 0 => []
  | k + 1 => .mark '[' :: .mark ']' :: brackets k

/-- The mark after the name of something optional. -/
def optionalMark (optional : Bool) : List Token :=
  if optional then [.mark '?'] else []

/-- The grammar of types. -/
inductive Reads : List Token → Phrase → Prop
  | noParameters {ts r} : Reads ts (.type .type r) →
      Reads (.mark '(' :: .mark ')' :: .arrow :: ts) (.type .type (.function [] r))
  | function {ts us ps r} : Reads ts (.fields .function ps) → Reads us (.type .type r) →
      Reads (.mark '(' :: (ts ++ .mark ')' :: .arrow :: us)) (.type .type (.function ps r))
  | ofUnion {ts c} : Reads ts (.type .union c) → Reads ts (.type .type c)
  | union {ts cs} : Reads ts (.row .alternatives cs) → Reads ts (.type .union (.unionOf cs))
  | intersection {ts cs} : Reads ts (.row .operands cs) →
      Reads ts (.type .intersection (.intersectionOf cs))
  | arrays {ts c} (k : Nat) : Reads ts (.type .primary c) →
      Reads (ts ++ brackets k) (.type .array (c.arrays k))
  | parentheses {ts c} : Reads ts (.type .type c) →
      Reads (.mark '(' :: (ts ++ [.mark ')'])) (.type .primary c)
  | keyword {w} : w ∈ keywordTypes → Reads [.word w] (.type .primary (.keyword w))
  | name {w} : isTypeName w = true → Reads [.word w] (.type .primary (.named w []))
  | application {w ts cs} : isTypeName w = true → Reads ts (.row .arguments cs) →
      Reads (.word w :: .mark '<' :: (ts ++ [.mark '>'])) (.type .primary (.named w cs))
  | boolean (b : Bool) :
      Reads [.word (if b then "true" else "false")] (.type .primary (.literal (.boolean b)))
  | text (s : String) : Reads [.string s] (.type .primary (.literal (.text s)))
  | number (x : Binary64) : Reads [.number x] (.type .primary (.literal (.number x)))
  | negative (x : Binary64) :
      Reads [.mark '-', .number x] (.type .primary (.literal (.number { x with negative := true })))
  | noFields : Reads [.mark '\x7b', .mark '\x7d'] (.type .primary (.object []))
  | object {ts fs} : Reads ts (.fields .object fs) →
      Reads (.mark '\x7b' :: (ts ++ [.mark '\x7d'])) (.type .primary (.object fs))
  | index {w ts us k v} : Reads ts (.type .type k) → Reads us (.type .type v) →
      Reads (.mark '\x7b' :: .mark '[' :: .word w :: .mark ':' ::
        (ts ++ .mark ']' :: .mark ':' :: (us ++ [.mark '\x7d']))) (.type .primary (.index k v))
  | lastType {r ts c} : Reads ts (.type r.level c) → Reads ts (.row r [c])
  | moreTypes {r ts us c cs} : Reads ts (.type r.level c) → Reads us (.row r cs) →
      Reads (ts ++ .mark r.separator :: us) (.row r (c :: cs))
  | field {o tok n ts c} (optional : Bool) : Owner.label? o tok = some n →
      Reads ts (.type .type c) →
      Reads (tok :: (optionalMark optional ++ .mark ':' :: ts)) (.field o (n, optional, c))
  | lastField {o ts f} : Reads ts (.field o f) → Reads ts (.fields o [f])
  | moreFields {o ts us f fs} : Reads ts (.field o f) → Reads us (.fields o fs) →
      Reads (ts ++ .mark ',' :: us) (.fields o (f :: fs))

/-! ## Reading

The reader of a phrase takes as many tokens as belong to it. -/

/-- What is to be read. -/
inductive Goal where
  | type (level : Precedence)
  | row (kind : Row)
  | field (owner : Owner)
  | fields (owner : Owner)

/-- What a phrase is read for. -/
def Phrase.goal : Phrase → Goal
  | .type level _ => .type level
  | .row kind _ => .row kind
  | .field owner _ => .field owner
  | .fields owner _ => .fields owner

/-- Whether tokens after an opening parenthesis start the parameters of a function type. -/
def startsParameters : List Token → Bool
  | .mark ')' :: _ => true
  | .word _ :: .mark c :: _ => c == ':' || c == '?'
  | _ => false

def startsFunction : List Token → Bool
  | .mark '(' :: ts => startsParameters ts
  | _ => false

def expect (expected : Token) : List Token → Option (List Token)
  | [] => none
  | tok :: ts => if tok = expected then some ts else none

def readBrackets (c : TypeTree) : List Token → TypeTree × List Token
  | .mark '[' :: .mark ']' :: ts => readBrackets c.array ts
  | ts => (c, ts)

/-- Reads a phrase; the number bounds the depth of the recursion. -/
def read : Nat → Goal → List Token → Option (Phrase × List Token)
  | 0, _, _ => none
  | n + 1, .type .type, ts =>
    if startsFunction ts then
      match ts with
      | _ :: .mark ')' :: ts => do
        let ts ← expect .arrow ts
        let (.type _ r, ts) ← read n (.type .type) ts | none
        return (.type .type (.function [] r), ts)
      | _ :: ts => do
        let (.fields _ ps, ts) ← read n (.fields .function) ts | none
        let ts ← expect (.mark ')') ts
        let ts ← expect .arrow ts
        let (.type _ r, ts) ← read n (.type .type) ts | none
        return (.type .type (.function ps r), ts)
      | [] => none
    else do
      let (.type _ c, ts) ← read n (.type .union) ts | none
      return (.type .type c, ts)
  | n + 1, .type .union, ts => do
    let (.row _ cs, ts) ← read n (.row .alternatives) ts | none
    return (.type .union (.unionOf cs), ts)
  | n + 1, .type .intersection, ts => do
    let (.row _ cs, ts) ← read n (.row .operands) ts | none
    return (.type .intersection (.intersectionOf cs), ts)
  | n + 1, .type .array, ts => do
    let (.type _ c, ts) ← read n (.type .primary) ts | none
    let (c, ts) := readBrackets c ts
    return (.type .array c, ts)
  | n + 1, .type .primary, ts =>
    match ts with
    | .mark '(' :: ts => do
      let (.type _ c, ts) ← read n (.type .type) ts | none
      let ts ← expect (.mark ')') ts
      return (.type .primary c, ts)
    | .word w :: ts =>
      if keywordTypes.contains w then some (.type .primary (.keyword w), ts)
      else if w = "true" then some (.type .primary (.literal (.boolean true)), ts)
      else if w = "false" then some (.type .primary (.literal (.boolean false)), ts)
      else
        match ts with
        | .mark '<' :: ts => do
          let (.row _ cs, ts) ← read n (.row .arguments) ts | none
          let ts ← expect (.mark '>') ts
          return (.type .primary (.named w cs), ts)
        | ts => some (.type .primary (.named w []), ts)
    | .string s :: ts => some (.type .primary (.literal (.text s)), ts)
    | .number x :: ts => some (.type .primary (.literal (.number x)), ts)
    | .mark '-' :: .number x :: ts =>
      some (.type .primary (.literal (.number { x with negative := true })), ts)
    | .mark '\x7b' :: .mark '\x7d' :: ts => some (.type .primary (.object []), ts)
    | .mark '\x7b' :: .mark '[' :: .word _ :: .mark ':' :: ts => do
      let (.type _ k, ts) ← read n (.type .type) ts | none
      let ts ← expect (.mark ']') ts
      let ts ← expect (.mark ':') ts
      let (.type _ v, ts) ← read n (.type .type) ts | none
      let ts ← expect (.mark '\x7d') ts
      return (.type .primary (.index k v), ts)
    | .mark '\x7b' :: ts => do
      let (.fields _ fs, ts) ← read n (.fields .object) ts | none
      let ts ← expect (.mark '\x7d') ts
      return (.type .primary (.object fs), ts)
    | _ => none
  | n + 1, .row r, ts => do
    let (.type _ c, ts) ← read n (.type r.level) ts | none
    match expect (.mark r.separator) ts with
    | some ts =>
      let (.row _ cs, ts) ← read n (.row r) ts | none
      return (.row r (c :: cs), ts)
    | none => return (.row r [c], ts)
  | n + 1, .field o, ts =>
    match ts with
    | [] => none
    | tok :: ts => do
      let name ← o.label? tok
      let optional := (expect (.mark '?') ts).isSome
      let ts ← expect (.mark ':') ((expect (.mark '?') ts).getD ts)
      let (.type _ c, ts) ← read n (.type .type) ts | none
      return (.field o (name, optional, c), ts)
  | n + 1, .fields o, ts => do
    let (.field _ f, ts) ← read n (.field o) ts | none
    match expect (.mark ',') ts with
    | some ts =>
      let (.fields _ fs, ts) ← read n (.fields o) ts | none
      return (.fields o (f :: fs), ts)
    | none => return (.fields o [f], ts)

/-! ## What follows a phrase -/

/-- The marks that continue a type of a level. -/
def Precedence.continued : Precedence → List Char
  | type => ['<', '[', '&', '|']
  | union => ['<', '[', '&', '|']
  | intersection => ['<', '[', '&']
  | array => ['<', '[']
  | primary => ['<']

/-- The marks that continue what is read. -/
def Goal.continued : Goal → List Char
  | .type level => level.continued
  | .row kind => kind.separator :: kind.level.continued
  | .field _ => Precedence.type.continued
  | .fields _ => ',' :: Precedence.type.continued

/-- Whether tokens do not continue what is read before them. -/
def Stops (goal : Goal) (rest : List Token) : Prop :=
  ∀ c ∈ goal.continued, rest.head? ≠ some (.mark c)

theorem stops_nil (goal : Goal) : Stops goal [] := by
  intro c _ h
  cases h

variable {goal : Goal} {rest ts : List Token} {p : Phrase}

theorem stops_mark {c : Char} (h : c ∉ goal.continued) (rest : List Token) :
    Stops goal (.mark c :: rest) := by
  intro d hd heq
  obtain rfl := Token.mark.inj (Option.some.inj heq)
  exact h hd

theorem Stops.mono {goal' : Goal} (h : Stops goal rest) (hsub : goal'.continued ⊆ goal.continued) :
    Stops goal' rest := by
  intro c hc
  exact h c (hsub hc)

@[simp]
theorem expect_self (tok : Token) (ts : List Token) : expect tok (tok :: ts) = some ts := by
  simp [expect]

theorem expect_eq_none {tok : Token} (h : ts.head? ≠ some tok) : expect tok ts = none := by
  cases ts with
  | nil => rfl
  | cons t ts =>
    rw [expect, if_neg]
    rintro rfl
    exact h rfl

theorem Stops.expect (h : Stops goal rest) {c : Char} (hc : c ∈ goal.continued) :
    expect (.mark c) rest = none :=
  expect_eq_none (h c hc)

theorem readBrackets_append (c : TypeTree) (k : Nat) {rest : List Token}
    (hrest : rest.head? ≠ some (.mark '[')) :
    readBrackets c (brackets k ++ rest) = (c.arrays k, rest) := by
  induction k generalizing c with
  | zero =>
    rw [brackets, List.nil_append, readBrackets]
    · rfl
    · rintro ts rfl
      exact hrest rfl
  | succ k ih => exact ih c.array

/-! ## Looking ahead -/

def Phrase.IsType : Phrase → Prop
  | .type _ _ | .row _ _ => True
  | .field _ _ | .fields _ _ => False

theorem startsParameters_word (w : String) (hcolon : rest.head? ≠ some (.mark ':'))
    (hmark : rest.head? ≠ some (.mark '?')) : startsParameters (.word w :: rest) = false := by
  unfold startsParameters
  split
  case h_1 heq => cases heq
  case h_2 v c more heq =>
    obtain ⟨-, rfl⟩ := List.cons.inj heq
    have hc : c ≠ ':' := by
      rintro rfl
      exact hcolon rfl
    have hc' : c ≠ '?' := by
      rintro rfl
      exact hmark rfl
    simp [hc, hc']
  case h_3 => rfl

/-- No type starts like the parameters of a function. -/
theorem Reads.startsParameters (h : Reads ts p) (hp : p.IsType)
    (hcolon : rest.head? ≠ some (.mark ':')) (hmark : rest.head? ≠ some (.mark '?')) :
    startsParameters (ts ++ rest) = false := by
  induction h generalizing rest with
  | ofUnion _ ih | union _ ih | intersection _ ih | lastType _ ih => exact ih trivial hcolon hmark
  | arrays k _ ih =>
    rw [List.append_assoc]
    cases k with
    | zero => exact ih trivial hcolon hmark
    | succ k => exact ih trivial (by simp [brackets]) (by simp [brackets])
  | @moreTypes r _ _ _ _ _ _ ih _ =>
    rw [List.append_assoc]
    apply ih trivial
    · cases r <;> simp [Row.separator]
    · cases r <;> simp [Row.separator]
  | keyword _ | name _ => exact startsParameters_word _ hcolon hmark
  | boolean b => exact startsParameters_word _ hcolon hmark
  | field _ _ _ | lastField _ _ | moreFields _ _ _ _ => exact hp.elim
  | _ => rfl

/-- Whether a phrase consists of types other than functions. -/
def Phrase.IsOperand : Phrase → Prop
  | .type level _ => level ≠ .type
  | .row kind _ => kind ≠ .arguments
  | .field _ _ | .fields _ _ => False

theorem Phrase.IsOperand.member {r : Row} {cs : List TypeTree} (h : (Phrase.row r cs).IsOperand)
    (c : TypeTree) : (Phrase.type r.level c).IsOperand := by
  cases r with
  | arguments => exact absurd rfl h
  | alternatives | operands => simp [Phrase.IsOperand, Row.level]

/-- Only function types start like one; what stands in parentheses is a type. -/
theorem Reads.startsFunction (h : Reads ts p) (hp : p.IsOperand) (rest : List Token) :
    startsFunction (ts ++ rest) = false := by
  induction h generalizing rest with
  | noParameters _ _ | function _ _ _ _ | ofUnion _ _ => exact absurd rfl hp
  | union _ ih | intersection _ ih => exact ih (by simp [Phrase.IsOperand]) rest
  | arrays k _ ih =>
    rw [List.append_assoc]
    exact ih (by simp [Phrase.IsOperand]) _
  | parentheses h _ =>
    rw [List.cons_append, List.append_assoc]
    exact h.startsParameters trivial (by simp) (by simp)
  | lastType _ ih => exact ih (hp.member _) rest
  | moreTypes _ _ ih _ =>
    rw [List.append_assoc]
    exact ih (hp.member _) _
  | field _ _ _ | lastField _ _ | moreFields _ _ _ _ => exact hp.elim
  | _ => rfl

/-- Fields start with a name and a mark. -/
theorem Reads.exists_label (h : Reads ts p) {o : Owner}
    (hp : p.goal = .field o ∨ p.goal = .fields o) :
    ∃ tok c more, ts = tok :: .mark c :: more ∧ (o.label? tok).isSome ∧ (c = ':' ∨ c = '?') := by
  induction h with
  | @field o' tok n ts c optional hlabel _ _ =>
    obtain rfl : o' = o := by simpa [Phrase.goal] using hp
    cases optional with
    | false => exact ⟨tok, ':', ts, rfl, by rw [hlabel]; rfl, .inl rfl⟩
    | true => exact ⟨tok, '?', .mark ':' :: ts, rfl, by rw [hlabel]; rfl, .inr rfl⟩
  | @lastField o' _ _ _ ih =>
    apply ih
    simpa [Phrase.goal] using hp
  | @moreFields o' _ _ _ _ _ _ ih _ =>
    obtain ⟨tok, c, more, rfl, hlabel, hc⟩ := ih (by simpa [Phrase.goal] using hp)
    exact ⟨tok, c, more ++ _, rfl, hlabel, hc⟩
  | _ => simp [Phrase.goal] at hp

/-! ## The reader finds every derivation -/

/-- Whether a reader of some depth reads the phrase and nothing that follows it. -/
def ReadAt (n : Nat) (goal : Goal) (ts : List Token) (p : Phrase) : Prop :=
  ∀ rest, Stops goal rest → read n goal (ts ++ rest) = some (p, rest)

/-- Whether a deep enough reader reads the phrase and nothing that follows it. -/
def Found (goal : Goal) (ts : List Token) (p : Phrase) : Prop :=
  ∃ depth, ∀ n, depth ≤ n → ∀ rest, Stops goal rest → read n goal (ts ++ rest) = some (p, rest)

namespace Found

variable {ts us : List Token} {c d : TypeTree} {cs : List TypeTree} {r : Row}
  {o : Owner} {w : String}
  {f : String × Bool × TypeTree} {fs : List (String × Bool × TypeTree)} {goal goal' goal'' : Goal}
  {p p' p'' : Phrase}

attribute [local simp] read

/-- One more call of the reader. -/
theorem of_step (depth : Nat) (h : ∀ n, depth ≤ n → ReadAt (n + 1) goal ts p) :
    Found goal ts p := by
  refine ⟨depth + 1, ?_⟩
  rintro (_ | n) hn rest hrest
  · omega
  · exact h n (by omega) rest hrest

/-- One more call of the reader, after a phrase. -/
theorem step (h : Found goal ts p) (hstep : ∀ n, ReadAt n goal ts p → ReadAt (n + 1) goal' us p') :
    Found goal' us p' := by
  obtain ⟨depth, h⟩ := h
  exact of_step depth fun n hn => hstep n (h n hn)

/-- One more call of the reader, after two phrases. -/
theorem step₂ {vs : List Token} (h : Found goal ts p) (h' : Found goal' us p')
    (hstep : ∀ n, ReadAt n goal ts p → ReadAt n goal' us p' → ReadAt (n + 1) goal'' vs p'') :
    Found goal'' vs p'' := by
  obtain ⟨depth, h⟩ := h
  obtain ⟨depth', h'⟩ := h'
  exact of_step (max depth depth') fun n hn => hstep n (h n (by omega)) (h' n (by omega))

theorem noParameters (h : Found (.type .type) ts (.type .type c)) :
    Found (.type .type) (.mark '(' :: .mark ')' :: .arrow :: ts)
      (.type .type (.function [] c)) := by
  refine h.step fun n h rest hrest => ?_
  simp [startsFunction, startsParameters, h rest hrest]

theorem function (hlabel : ∃ tok c more, ts = tok :: .mark c :: more ∧
      (Owner.function.label? tok).isSome ∧ (c = ':' ∨ c = '?'))
    (h : Found (.fields .function) ts (.fields .function fs))
    (h' : Found (.type .type) us (.type .type c)) :
    Found (.type .type) (.mark '(' :: (ts ++ .mark ')' :: .arrow :: us))
      (.type .type (.function fs c)) := by
  obtain ⟨tok, m, more, rfl, htok, hm⟩ := hlabel
  refine h.step₂ h' fun n h h' rest hrest => ?_
  have hfields := h (.mark ')' :: .arrow :: (us ++ rest)) (stops_mark (by decide) _)
  have hresult := h' rest hrest
  cases tok with
  | word w =>
    have hstarts : (m == ':' || m == '?') = true := by
      rcases hm with rfl | rfl <;> rfl
    rw [List.cons_append, List.cons_append] at hfields
    simp [startsFunction, startsParameters, hstarts, hfields, hresult]
  | _ => simp [Owner.label?] at htok

theorem ofUnion (hstarts : ∀ rest, startsFunction (ts ++ rest) = false)
    (h : Found (.type .union) ts (.type .union c)) : Found (.type .type) ts (.type .type c) := by
  refine h.step fun n h rest hrest => ?_
  simp [hstarts, h rest hrest]

theorem union (h : Found (.row .alternatives) ts (.row .alternatives cs)) :
    Found (.type .union) ts (.type .union (.unionOf cs)) := by
  refine h.step fun n h rest hrest => ?_
  have hrow := h rest (hrest.mono (by decide))
  simp [hrow]

theorem intersection (h : Found (.row .operands) ts (.row .operands cs)) :
    Found (.type .intersection) ts (.type .intersection (.intersectionOf cs)) := by
  refine h.step fun n h rest hrest => ?_
  have hrow := h rest (hrest.mono (by decide))
  simp [hrow]

theorem arrays (k : Nat) (h : Found (.type .primary) ts (.type .primary c)) :
    Found (.type .array) (ts ++ brackets k) (.type .array (c.arrays k)) := by
  refine h.step fun n h rest hrest => ?_
  have hbrackets : Stops (.type .primary) (brackets k ++ rest) := by
    cases k with
    | zero => exact hrest.mono (by decide)
    | succ k => exact stops_mark (by decide) _
  have hprimary := h (brackets k ++ rest) hbrackets
  simp [hprimary, readBrackets_append c k (hrest '[' (by decide))]

theorem parentheses (h : Found (.type .type) ts (.type .type c)) :
    Found (.type .primary) (.mark '(' :: (ts ++ [.mark ')'])) (.type .primary c) := by
  refine h.step fun n h rest hrest => ?_
  have htype := h (.mark ')' :: rest) (stops_mark (by decide) _)
  simp [htype]

theorem keyword (hw : w ∈ keywordTypes) :
    Found (.type .primary) [.word w] (.type .primary (.keyword w)) := by
  apply of_step 0
  intro n hn rest hrest
  simp [hw]

theorem name (hw : isTypeName w = true) :
    Found (.type .primary) [.word w] (.type .primary (.named w [])) := by
  apply of_step 0
  intro n hn rest hrest
  obtain ⟨hkeyword, htrue, hfalse⟩ := isTypeName_facts hw
  rw [List.singleton_append, read]
  · simp [hkeyword, htrue, hfalse]
  · rintro ts rfl
    exact hrest '<' (by decide) rfl

theorem application (hw : isTypeName w = true)
    (h : Found (.row .arguments) ts (.row .arguments cs)) :
    Found (.type .primary) (.word w :: .mark '<' :: (ts ++ [.mark '>']))
      (.type .primary (.named w cs)) := by
  refine h.step fun n h rest hrest => ?_
  have hrow := h (.mark '>' :: rest) (stops_mark (by decide) _)
  obtain ⟨hkeyword, htrue, hfalse⟩ := isTypeName_facts hw
  simp [hkeyword, htrue, hfalse, hrow]

theorem boolean (b : Bool) :
    Found (.type .primary) [.word (if b then "true" else "false")]
      (.type .primary (.literal (.boolean b))) := by
  apply of_step 0
  intro n hn rest hrest
  have hkeyword : "true" ∉ keywordTypes ∧ "false" ∉ keywordTypes := by decide
  cases b <;> simp [hkeyword]

theorem object (hlabel : ∃ tok c more, ts = tok :: .mark c :: more ∧
      (Owner.object.label? tok).isSome ∧ (c = ':' ∨ c = '?'))
    (h : Found (.fields .object) ts (.fields .object fs)) :
    Found (.type .primary) (.mark '\x7b' :: (ts ++ [.mark '\x7d']))
      (.type .primary (.object fs)) := by
  obtain ⟨tok, m, more, rfl, htok, -⟩ := hlabel
  refine h.step fun n h rest hrest => ?_
  have hfields := h (.mark '\x7d' :: rest) (stops_mark (by decide) _)
  cases tok with
  | word w =>
    rw [List.cons_append, List.cons_append] at hfields
    simp [hfields]
  | string s =>
    rw [List.cons_append, List.cons_append] at hfields
    simp [hfields]
  | _ => simp [Owner.label?] at htok

theorem index (h : Found (.type .type) ts (.type .type c))
    (h' : Found (.type .type) us (.type .type d)) :
    Found (.type .primary) (.mark '\x7b' :: .mark '[' :: .word w :: .mark ':' ::
      (ts ++ .mark ']' :: .mark ':' :: (us ++ [.mark '\x7d']))) (.type .primary (.index c d)) := by
  refine h.step₂ h' fun n h h' rest hrest => ?_
  have hkey := h (.mark ']' :: .mark ':' :: (us ++ .mark '\x7d' :: rest))
    (stops_mark (by decide) _)
  have hvalue := h' (.mark '\x7d' :: rest) (stops_mark (by decide) _)
  simp [hkey, hvalue]

theorem lastType (h : Found (.type r.level) ts (.type r.level c)) :
    Found (.row r) ts (.row r [c]) := by
  refine h.step fun n h rest hrest => ?_
  have htype := h rest (hrest.mono (List.subset_cons_self _ _))
  have hseparator := hrest.expect (c := r.separator) List.mem_cons_self
  simp [htype, hseparator]

theorem moreTypes (h : Found (.type r.level) ts (.type r.level c))
    (h' : Found (.row r) us (.row r cs)) :
    Found (.row r) (ts ++ .mark r.separator :: us) (.row r (c :: cs)) := by
  refine h.step₂ h' fun n h h' rest hrest => ?_
  have htype := h (.mark r.separator :: (us ++ rest))
    (stops_mark (by cases r <;> decide) _)
  have hrow := h' rest hrest
  simp [htype, hrow]

theorem field {tok : Token} {n : String} (optional : Bool) (hlabel : o.label? tok = some n)
    (h : Found (.type .type) ts (.type .type c)) :
    Found (.field o) (tok :: (optionalMark optional ++ .mark ':' :: ts))
      (.field o (n, optional, c)) := by
  refine h.step fun n h rest hrest => ?_
  have htype := h rest hrest
  cases optional with
  | false => simp [optionalMark, hlabel, expect, htype]
  | true => simp [optionalMark, hlabel, expect, htype]

theorem lastField (h : Found (.field o) ts (.field o f)) :
    Found (.fields o) ts (.fields o [f]) := by
  refine h.step fun n h rest hrest => ?_
  have hfield := h rest (hrest.mono (List.subset_cons_self _ _))
  have hcomma := hrest.expect (c := ',') List.mem_cons_self
  simp [hfield, hcomma]

theorem moreFields (h : Found (.field o) ts (.field o f))
    (h' : Found (.fields o) us (.fields o fs)) :
    Found (.fields o) (ts ++ .mark ',' :: us) (.fields o (f :: fs)) := by
  refine h.step₂ h' fun n h h' rest hrest => ?_
  have hfield := h (.mark ',' :: (us ++ rest))
    (stops_mark (show ',' ∉ Precedence.type.continued by decide) _)
  have hfields := h' rest hrest
  simp [hfield, hfields]

end Found

theorem Reads.found (h : Reads ts p) : Found p.goal ts p := by
  induction h with
  | noParameters _ ih => exact ih.noParameters
  | function h _ ih ih' => exact ih.function (h.exists_label (Or.inr rfl)) ih'
  | ofUnion h ih => exact ih.ofUnion (h.startsFunction (by simp [Phrase.IsOperand]))
  | union _ ih => exact ih.union
  | intersection _ ih => exact ih.intersection
  | arrays k _ ih => exact ih.arrays k
  | parentheses _ ih => exact ih.parentheses
  | keyword hw => exact Found.keyword hw
  | name hw => exact Found.name hw
  | application hw _ ih => exact ih.application hw
  | boolean b => exact Found.boolean b
  | text _ | number _ | negative _ | noFields => exact Found.of_step 0 fun _ _ _ _ => rfl
  | object h ih => exact ih.object (h.exists_label (Or.inr rfl))
  | index _ _ ih ih' => exact ih.index ih'
  | lastType _ ih => exact ih.lastType
  | moreTypes _ _ ih ih' => exact ih.moreTypes ih'
  | field optional hlabel _ ih => exact ih.field optional hlabel
  | lastField _ ih => exact ih.lastField
  | moreFields _ _ ih ih' => exact ih.moreFields ih'

/-- Tokens are read in one way. -/
theorem Reads.unique {ts : List Token} {p q : Phrase} (hp : Reads ts p) (hq : Reads ts q)
    (hgoal : p.goal = q.goal) : p = q := by
  obtain ⟨depth, hp⟩ := hp.found
  obtain ⟨depth', hq⟩ := hq.found
  have hread := hp (max depth depth') (le_max_left _ _) [] (stops_nil _)
  have hread' := hq (max depth depth') (le_max_right _ _) [] (stops_nil _)
  rw [hgoal, hread'] at hread
  exact (Prod.mk.inj (Option.some.inj hread)).1.symm

/-! ## Marks -/

/-- Whether a token is not a mark without a meaning. -/
def Token.isMeaningful : Token → Bool
  | .mark c => punctuation.contains c
  | _ => true

theorem isMeaningful_of_label? {o : Owner} {tok : Token} {n : String} (h : o.label? tok = some n) :
    tok.isMeaningful = true := by
  cases tok with
  | mark c => cases o <;> cases h
  | _ => rfl

theorem isMeaningful_brackets (k : Nat) : ∀ tok ∈ brackets k, tok.isMeaningful = true := by
  induction k with
  | zero => simp [brackets]
  | succ k ih => simpa [brackets, Token.isMeaningful, punctuation] using ih

/-- All marks of a phrase have a meaning. -/
theorem Reads.isMeaningful (h : Reads ts p) : ∀ tok ∈ ts, tok.isMeaningful = true := by
  have hmark {c : Char} (hc : c ∈ punctuation) : (Token.mark c).isMeaningful = true := by
    simpa [Token.isMeaningful] using hc
  induction h with
  | ofUnion _ ih | union _ ih | intersection _ ih | lastType _ ih | lastField _ ih => exact ih
  | keyword _ | name _ => simp [Token.isMeaningful]
  | boolean _ | text _ | number _ => simp [Token.isMeaningful]
  | negative _ | noFields => simp [Token.isMeaningful, punctuation]
  | noParameters _ ih =>
    simp only [List.forall_mem_cons]
    exact ⟨hmark (by decide), hmark (by decide), rfl, ih⟩
  | function _ _ ih ih' =>
    simp only [List.forall_mem_cons, List.forall_mem_append]
    exact ⟨hmark (by decide), ih, hmark (by decide), rfl, ih'⟩
  | arrays k _ ih =>
    simp only [List.forall_mem_append]
    exact ⟨ih, isMeaningful_brackets k⟩
  | parentheses _ ih | object _ ih =>
    simp only [List.forall_mem_cons, List.forall_mem_append]
    exact ⟨hmark (by decide), ih, hmark (by decide), by simp⟩
  | application _ _ ih =>
    simp only [List.forall_mem_cons, List.forall_mem_append]
    exact ⟨rfl, hmark (by decide), ih, hmark (by decide), by simp⟩
  | index _ _ ih ih' =>
    simp only [List.forall_mem_cons, List.forall_mem_append]
    exact ⟨hmark (by decide), hmark (by decide), rfl, hmark (by decide), ih, hmark (by decide),
      hmark (by decide), ih', hmark (by decide), by simp⟩
  | @moreTypes r _ _ _ _ _ _ ih ih' =>
    simp only [List.forall_mem_cons, List.forall_mem_append]
    exact ⟨ih, hmark (by cases r <;> decide), ih'⟩
  | field optional hlabel _ ih =>
    simp only [List.forall_mem_cons, List.forall_mem_append]
    refine ⟨isMeaningful_of_label? hlabel, ?_, hmark (by decide), ih⟩
    cases optional <;> simp [optionalMark, Token.isMeaningful, punctuation]
  | moreFields _ _ ih ih' =>
    simp only [List.forall_mem_cons, List.forall_mem_append]
    exact ⟨ih, hmark (by decide), ih'⟩

/-! ## Parentheses -/

namespace TypeTree

/-- The parenthesis that a type needs at a place of a level. -/
def paren (c : TypeTree) (level : Precedence) : Nat :=
  if c.level.toNat < level.toNat then 1 else 0

mutual

/-- The number of opening parentheses that a type is written with at least. -/
def required : TypeTree → Nat
  | keyword _ | literal _ => 0
  | named _ args => requiredAll .type args
  | array element => element.required + element.paren .array
  | object fields => requiredFields fields
  | index key value => key.required + value.required
  | function params result => 1 + requiredFields params + result.required
  | union members => requiredAll .intersection members
  | intersection members => requiredAll .array members

/-- The same for types at places of a level. -/
def requiredAll (level : Precedence) : List TypeTree → Nat
  | [] => 0
  | c :: cs => c.required + c.paren level + requiredAll level cs

def requiredFields : List (String × Bool × TypeTree) → Nat
  | [] => 0
  | (_, _, c) :: fields => c.required + requiredFields fields

end

end TypeTree

/-- The number of opening parentheses that a phrase needs. -/
def Phrase.required : Phrase → Nat
  | .type level c => c.required + c.paren level
  | .row kind cs => TypeTree.requiredAll kind.level cs
  | .field _ (_, _, c) => c.required
  | .fields _ fs => TypeTree.requiredFields fs

namespace TypeTree

@[simp]
theorem paren_type (c : TypeTree) : c.paren .type = 0 := by
  simp [paren, Precedence.toNat]

theorem paren_le_one (c : TypeTree) (level : Precedence) : c.paren level ≤ 1 := by
  unfold paren
  split <;> omega

theorem paren_mono (c : TypeTree) {l m : Precedence} (h : l.toNat ≤ m.toNat) :
    c.paren l ≤ c.paren m := by
  unfold paren
  split_ifs <;> omega

theorem required_unionOf_le (cs : List TypeTree) :
    (unionOf cs).required + (unionOf cs).paren .union ≤ requiredAll .intersection cs := by
  match cs with
  | [] => exact le_rfl
  | [c] =>
    have := c.paren_mono (l := .union) (m := .intersection) (by decide)
    simp only [unionOf, requiredAll]
    omega
  | _ :: _ :: _ => exact le_rfl

theorem required_intersectionOf_le (cs : List TypeTree) :
    (intersectionOf cs).required + (intersectionOf cs).paren .intersection ≤
      requiredAll .array cs := by
  match cs with
  | [] => exact le_rfl
  | [c] =>
    have := c.paren_mono (l := .intersection) (m := .array) (by decide)
    simp only [intersectionOf, requiredAll]
    omega
  | _ :: _ :: _ => exact le_rfl

/-- Brackets need no more parentheses than the element does. -/
theorem required_arrays (c : TypeTree) (k : Nat) :
    (c.arrays k).required + (c.arrays k).paren .array = c.required + c.paren .array := by
  induction k generalizing c with
  | zero => rfl
  | succ k ih => exact ih c.array

end TypeTree

theorem count_brackets (k : Nat) : (brackets k).count (.mark '(') = 0 := by
  induction k with
  | zero => rfl
  | succ k ih => simpa [brackets] using ih

/-- The parentheses of a phrase are at least those that it needs. -/
theorem Reads.required_le {ts : List Token} {p : Phrase} (h : Reads ts p) :
    p.required ≤ ts.count (.mark '(') := by
  induction h with
  | keyword _ | name _ => exact Nat.zero_le _
  | boolean _ | text _ | number _ | negative _ | noFields => exact Nat.zero_le _
  | noParameters _ ih =>
    simp [Phrase.required, TypeTree.required, TypeTree.requiredFields] at ih ⊢
    omega
  | function _ _ ih ih' =>
    simp [Phrase.required, TypeTree.required] at ih ih' ⊢
    omega
  | @ofUnion _ c _ ih =>
    simp only [Phrase.required, TypeTree.paren_type] at ih ⊢
    omega
  | @union _ cs _ ih => exact (TypeTree.required_unionOf_le cs).trans ih
  | @intersection _ cs _ ih => exact (TypeTree.required_intersectionOf_le cs).trans ih
  | @arrays _ c k _ ih =>
    have hmono := c.paren_mono (l := .array) (m := .primary) (by decide)
    simp only [Phrase.required, TypeTree.required_arrays, List.count_append, count_brackets] at ih ⊢
    omega
  | @parentheses _ c _ ih =>
    have hone := c.paren_le_one .primary
    simp [Phrase.required] at ih ⊢
    omega
  | application _ _ ih | object _ ih =>
    simpa [Phrase.required, TypeTree.required, TypeTree.paren, TypeTree.level, Row.level] using ih
  | index _ _ ih ih' =>
    simp [Phrase.required, TypeTree.required, TypeTree.paren, TypeTree.level] at ih ih' ⊢
    omega
  | lastType _ ih => simpa [Phrase.required, TypeTree.requiredAll] using ih
  | @moreTypes r _ us _ _ _ _ ih ih' =>
    have hcount := List.count_le_count_cons (a := Token.mark '(') (b := .mark r.separator) (l := us)
    simp only [Phrase.required, TypeTree.requiredAll, List.count_append] at ih ih' ⊢
    omega
  | @field _ tok _ ts _ optional hlabel _ ih =>
    have hsuffix : ts <:+ tok :: (optionalMark optional ++ .mark ':' :: ts) :=
      ⟨tok :: (optionalMark optional ++ [.mark ':']), by simp⟩
    have hcount := hsuffix.sublist.count_le (.mark '(')
    simp only [Phrase.required, TypeTree.paren_type] at ih ⊢
    omega
  | lastField _ ih => simpa [Phrase.required, TypeTree.requiredFields] using ih
  | moreFields _ _ ih ih' =>
    simp [Phrase.required, TypeTree.requiredFields] at ih ih' ⊢
    omega

end Typings.Emission
