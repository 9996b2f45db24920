import Typings.Proofs.Emission.TypeTokens

/-!
# Types read back

What the text of a type is to be read as keeps the type up to four conventions: a union or an
intersection of one type is that type, an empty one is a keyword, directly nested ones are one, and
a type that may be absent is its union with `undefined` unless a question mark says so.

Whether an operand is put in parentheses is decided by its outermost constructor. A union or an
intersection of one type is written as that type, so around it the decision can be wrong: the
parentheses of what it is written as are lost, and the text is read as another type. The text is
read back iff that happens nowhere and every name of a member that stands without quotes is a word.

## Main definitions

* `TypeExpr.tree`: what a type is to be read as.
* `TypeExpr.core`: a type without unions and intersections of one type around it.
* `TypeExpr.lost`: the number of operands whose parentheses are lost.
* `TypeExpr.NamesAreWords`: the names of members that stand without quotes are words.

## Main results

* `TypeExpr.balanced`: the parentheses that a type needs are those that it has and those that are
  lost.
* `reads_text_iff`: when a type is read back.
-/

namespace Typings

open Emission

namespace Emission.TypeTree

/-- The members of a union, or the type itself. -/
def alternatives : TypeTree → List TypeTree
  | union cs => cs
  | c => [c]

/-- The members of an intersection, or the type itself. -/
def operands : TypeTree → List TypeTree
  | intersection cs => cs
  | c => [c]

end Emission.TypeTree

namespace TypeExpr

/-! ## What a type is to be read as -/

section Tree

variable (name : Symbol → String)

mutual

/-- What a type is to be read as. -/
def tree : TypeExpr → TypeTree
  | reference symbol args => .named (name symbol) (trees args)
  | union [] => .keyword "never"
  | union [single] => single.tree
  | union (first :: second :: rest) =>
    .union ((trees (first :: second :: rest)).flatMap TypeTree.alternatives)
  | intersection [] => .keyword "unknown"
  | intersection [single] => single.tree
  | intersection (first :: second :: rest) =>
    .intersection ((trees (first :: second :: rest)).flatMap TypeTree.operands)
  | optional inner => .union (inner.tree.alternatives ++ [.keyword "undefined"])
  | array element => .array element.tree
  | indexed key value => .index key.tree value.tree
  | shape fields => .object (fieldTrees fields)
  | function params result => .function (fieldTrees params) result.tree
  | literal value => .literal value
  | var parameter => .named parameter []
  | primitive kind => .keyword (primitiveText kind)
  | verbatim text => .keyword text
  | any => .keyword "any"
termination_by structural t => t

/-- What types are to be read as. -/
def trees : List TypeExpr → List TypeTree
  | [] => []
  | t :: rest => t.tree :: trees rest

/-- What fields are to be read as; one that may be absent has a question mark. -/
def fieldTrees : List (String × TypeExpr) → List (String × Bool × TypeTree)
  | [] => []
  | (field, optional inner) :: rest => (field, true, inner.tree) :: fieldTrees rest
  | (field, t) :: rest => (field, false, t.tree) :: fieldTrees rest

end

@[simp]
theorem trees_eq_map (ts : List TypeExpr) : trees name ts = ts.map (tree name) := by
  induction ts with
  | nil => simp [trees]
  | cons t rest ih => simp [trees, ih]

@[simp]
theorem fieldTrees_eq_map (fields : List (String × TypeExpr)) :
    fieldTrees name fields =
      fields.map fun field => (field.1, field.2.isOptional, field.2.present.tree name) := by
  induction fields with
  | nil => simp [fieldTrees]
  | cons field rest ih =>
    obtain ⟨field, t⟩ := field
    cases t <;> simp [fieldTrees, isOptional, present, ih]

end Tree

/-! ## Lost parentheses -/

/-- What a type is written as: unions and intersections of one type are left out. -/
def core : TypeExpr → TypeExpr
  | union [single] => single.core
  | intersection [single] => single.core
  | t => t
termination_by structural t => t

/-- Whether a type is put in parentheses as the element of an array, as the member of an
intersection or as the member of a union. -/
def isParenthesized : Precedence → TypeExpr → Bool
  | .array, t => isLooserThanArray t
  | .intersection, t => isLooserThanIntersection t
  | .union, t => t.isFunction
  | _, _ => false

/-- Whether the parentheses of what a type is written as are lost. -/
def overlooked (level : Precedence) (t : TypeExpr) : Nat :=
  if isParenthesized level t.core && !isParenthesized level t then 1 else 0

mutual

/-- The number of operands in a type whose parentheses are lost. -/
def lost : TypeExpr → Nat
  | reference _ args => lostIn .type args
  | union [] => 0
  | union [single] => single.lost
  | union (first :: second :: rest) => lostIn .union (first :: second :: rest)
  | intersection [] => 0
  | intersection [single] => single.lost
  | intersection (first :: second :: rest) => lostIn .intersection (first :: second :: rest)
  | optional inner => inner.lost + overlooked .union inner
  | array element => element.lost + overlooked .array element
  | indexed key value => key.lost + value.lost
  | shape fields => lostInFields fields
  | function params result => lostInFields params + result.lost
  | literal _ | var _ | primitive _ | verbatim _ | any => 0
termination_by structural t => t

/-- The same for operands at places of a level. -/
def lostIn (level : Precedence) : List TypeExpr → Nat
  | [] => 0
  | t :: rest => t.lost + overlooked level t + lostIn level rest

/-- The same for fields. -/
def lostInFields : List (String × TypeExpr) → Nat
  | [] => 0
  | (_, optional inner) :: rest => inner.lost + lostInFields rest
  | (_, t) :: rest => t.lost + lostInFields rest

end

theorem lostIn_eq_sum (level : Precedence) (ts : List TypeExpr) :
    lostIn level ts = (ts.map fun t => t.lost + overlooked level t).sum := by
  induction ts with
  | nil => simp [lostIn]
  | cons t rest ih => simp [lostIn, ih]

theorem lostInFields_eq_sum (fields : List (String × TypeExpr)) :
    lostInFields fields = (fields.map fun field => field.2.present.lost).sum := by
  induction fields with
  | nil => simp [lostInFields]
  | cons field rest ih =>
    obtain ⟨field, t⟩ := field
    cases t <;> simp [lostInFields, present, ih]

/-- Whether the names of members that are written without quotes are words. -/
def NamesAreWords (A : Alphabet) (t : TypeExpr) : Prop :=
  ∀ fields, shape fields ∈ t.nodes → ∀ field ∈ fields, Identifier.isValid field.1 = true →
    A.isWord field.1 = true

/-! ## The level of a type -/

section Levels

variable (name : Symbol → String) {level : Precedence}

/-- What a type is written as is put in parentheses iff it binds more loosely than its place. -/
theorem isParenthesized_core (hlevel : level ≠ .primary) (t : TypeExpr) :
    isParenthesized level t.core = decide ((t.tree name).level.toNat < level.toNat) := by
  fun_induction core t with
  | case1 single ih => rw [ih, tree]
  | case2 single ih => rw [ih, tree]
  | case3 t hunion hintersection =>
    cases t with
    | union members =>
      rcases members with _ | ⟨single, _ | ⟨second, rest⟩⟩
      · cases level <;> rfl
      · exact absurd rfl (hunion single)
      · cases level with
        | primary => exact absurd rfl hlevel
        | _ => simp [isParenthesized, isLooserThanArray, isLooserThanIntersection, isFunction, tree,
            TypeTree.level, Precedence.toNat]
    | intersection members =>
      rcases members with _ | ⟨single, _ | ⟨second, rest⟩⟩
      · cases level <;> rfl
      · exact absurd rfl (hintersection single)
      · cases level with
        | primary => exact absurd rfl hlevel
        | _ => simp [isParenthesized, isLooserThanArray, isLooserThanIntersection, isFunction, tree,
            TypeTree.level, Precedence.toNat]
    | _ =>
      cases level with
      | primary => exact absurd rfl hlevel
      | _ => rfl

theorem isParenthesized_core_of_isParenthesized {t : TypeExpr}
    (h : isParenthesized level t = true) : isParenthesized level t.core = true := by
  fun_cases core t with
  | case1 single => cases level <;> cases h
  | case2 single => cases level <;> cases h
  | case3 => exact h

/-- The parenthesis that a type needs at its place is written or lost. -/
theorem paren_tree (hlevel : level ≠ .primary) (t : TypeExpr) :
    (t.tree name).paren level =
      (if isParenthesized level t = true then 1 else 0) + overlooked level t := by
  have hcore := isParenthesized_core name hlevel t
  unfold TypeTree.paren overlooked
  by_cases hwritten : isParenthesized level t = true
  · have hneeded := isParenthesized_core_of_isParenthesized hwritten
    rw [hneeded] at hcore
    simp [hwritten, of_decide_eq_true hcore.symm]
  · rw [Bool.not_eq_true] at hwritten
    simp [hwritten, hcore]

/-- An operand whose parentheses are not lost has them or needs none. -/
theorem isParenthesized_or_le (hlevel : level ≠ .primary) {t : TypeExpr}
    (h : overlooked level t = 0) :
    isParenthesized level t = true ∨ level.toNat ≤ (t.tree name).level.toNat := by
  by_cases hwritten : isParenthesized level t = true
  · exact .inl hwritten
  · have hcore := isParenthesized_core name hlevel t
    rw [Bool.not_eq_true] at hwritten
    simp only [overlooked, hwritten, hcore] at h
    right
    simpa using h

end Levels

end TypeExpr

/-! ## Phrases of a tree -/

namespace Emission

/-- The level below a level. -/
def Precedence.looser : Precedence → Precedence
  | primary => array
  | array => intersection
  | intersection => union
  | _ => type

theorem Precedence.exists_looser {l m : Precedence} (h : m.toNat ≤ l.toNat) :
    ∃ k, Precedence.looser^[k] l = m := by
  refine ⟨l.toNat - m.toNat, ?_⟩
  revert h
  cases l <;> cases m <;> decide

namespace Reads

variable {ts us : List Token} {c : TypeTree} {cs ds : List TypeTree} {l m : Precedence} {r : Row}

theorem looser (h : Reads ts (.type l c)) : Reads ts (.type l.looser c) := by
  cases l with
  | primary =>
    have h0 := Reads.arrays 0 h
    rwa [brackets, List.append_nil] at h0
  | array => exact .intersection (.lastType (r := .operands) h)
  | intersection => exact .union (.lastType (r := .alternatives) h)
  | union => exact .ofUnion h
  | type => exact h

/-- What binds tighter than a place needs can stand there. -/
theorem loosen (h : Reads ts (.type l c)) (hle : m.toNat ≤ l.toNat) : Reads ts (.type m c) := by
  obtain ⟨k, rfl⟩ := Precedence.exists_looser hle
  clear hle
  induction k generalizing l with
  | zero => exact h
  | succ k ih => exact ih h.looser

/-- One more pair of brackets. -/
theorem array (h : Reads ts (.type .array c)) :
    Reads (ts ++ brackets 1) (.type .array c.array) := by
  have hbrackets (k : Nat) : brackets k ++ brackets 1 = brackets (k + 1) := by
    induction k with
    | zero => rfl
    | succ k ih => rw [brackets, List.cons_append, List.cons_append, ih]; rfl
  have harrays (d : TypeTree) (k : Nat) : d.arrays (k + 1) = (d.arrays k).array := by
    induction k generalizing d with
    | zero => rfl
    | succ k ih => exact ih d.array
  cases h with
  | arrays k h =>
    rw [List.append_assoc, hbrackets, ← harrays]
    exact Reads.arrays (k + 1) h

/-- Two rows become one. -/
theorem row_append (h : Reads ts (.row r cs)) (h' : Reads us (.row r ds)) :
    Reads (ts ++ .mark r.separator :: us) (.row r (cs ++ ds)) := by
  generalize hp : Phrase.row r cs = p at h
  induction h generalizing cs with
  | lastType h =>
    obtain ⟨rfl, rfl⟩ := Phrase.row.inj hp
    exact .moreTypes h h'
  | moreTypes h _ _ ih =>
    obtain ⟨rfl, rfl⟩ := Phrase.row.inj hp
    rw [List.append_assoc]
    exact .moreTypes h (ih rfl)
  | _ => cases hp

/-- Rows in a row. -/
theorem row_separatedBy {α : Type} {f : α → List TypeTree} {g : α → List Token}
    {x : α} {xs : List α} (h : ∀ y ∈ x :: xs, Reads (g y) (.row r (f y))) :
    Reads (separatedBy r.separator ((x :: xs).map g)) (.row r ((x :: xs).flatMap f)) := by
  unfold separatedBy
  induction xs generalizing x with
  | nil => simpa using h x (List.mem_singleton_self x)
  | cons y ys ih =>
    have htail := ih fun z hz => h z (List.mem_cons_of_mem x hz)
    have hhead := (h x List.mem_cons_self).row_append htail
    simpa [List.intercalate_cons_cons] using hhead

/-- Fields in a row. -/
theorem fields_separatedBy {α : Type} {o : Owner} {f : α → String × Bool × TypeTree}
    {g : α → List Token} {x : α} {xs : List α} (h : ∀ y ∈ x :: xs, Reads (g y) (.field o (f y))) :
    Reads (separatedBy ',' ((x :: xs).map g)) (.fields o ((x :: xs).map f)) := by
  unfold separatedBy
  induction xs generalizing x with
  | nil => simpa using Reads.lastField (h x (List.mem_singleton_self x))
  | cons y ys ih =>
    have htail := ih fun z hz => h z (List.mem_cons_of_mem x hz)
    have hhead := Reads.moreFields (h x List.mem_cons_self) htail
    simpa [List.intercalate_cons_cons] using hhead

end Reads

namespace TypeTree

/-- Whether a union or an intersection has several members. -/
def IsProper : TypeTree → Prop
  | union cs => 2 ≤ cs.length
  | intersection cs => 2 ≤ cs.length
  | _ => True

/-- What the text of a type is read as where nothing binds tighter: a union and an intersection are
the rows of their members. -/
def phrase : TypeTree → Phrase
  | union cs => .row .alternatives cs
  | intersection cs => .row .operands cs
  | c => .type c.level c

variable {c : TypeTree} {ts : List Token} {l : Precedence}

theorem alternatives_eq_singleton (h : c.level ≠ .union) : c.alternatives = [c] := by
  cases c with
  | union cs => exact absurd rfl h
  | _ => rfl

theorem operands_eq_singleton (h : c.level ≠ .intersection) : c.operands = [c] := by
  cases c with
  | intersection cs => exact absurd rfl h
  | _ => rfl

theorem IsProper.alternatives_ne_nil (h : c.IsProper) : c.alternatives ≠ [] := by
  cases c with
  | union cs =>
    have hlength : 2 ≤ cs.length := h
    rintro (rfl : cs = [])
    simp at hlength
  | _ => simp [alternatives]

theorem IsProper.operands_ne_nil (h : c.IsProper) : c.operands ≠ [] := by
  cases c with
  | intersection cs =>
    have hlength : 2 ≤ cs.length := h
    rintro (rfl : cs = [])
    simp at hlength
  | _ => simp [operands]

/-- A type is read at its own level and at every looser one. -/
theorem IsProper.reads (hc : c.IsProper) (h : Reads ts c.phrase) (hle : l.toNat ≤ c.level.toNat) :
    Reads ts (.type l c) := by
  apply Reads.loosen _ hle
  cases c with
  | union cs =>
    match cs, hc with
    | _ :: _ :: _, _ => exact .union h
  | intersection cs =>
    match cs, hc with
    | _ :: _ :: _, _ => exact .intersection h
  | _ => exact h

theorem IsProper.reads_parentheses (hc : c.IsProper) (h : Reads ts c.phrase) :
    Reads (parenthesizedIf true ts) (.type .primary c) :=
  .parentheses (hc.reads h (Nat.zero_le _))

variable {wanted : Bool}

/-- In parentheses a type is read at every level. -/
theorem IsProper.reads_parenthesizedIf (hc : c.IsProper) (h : Reads ts c.phrase)
    (hle : wanted = true ∨ l.toNat ≤ c.level.toNat) :
    Reads (parenthesizedIf wanted ts) (.type l c) := by
  cases wanted with
  | true => exact (hc.reads_parentheses h).loosen (by cases l <;> decide)
  | false => exact hc.reads h (hle.resolve_left (by decide))

/-- The member of a union. -/
theorem IsProper.reads_alternatives (hc : c.IsProper) (h : Reads ts c.phrase)
    (hle : wanted = true ∨ Precedence.union.toNat ≤ c.level.toNat)
    (hwanted : wanted = true → c.level ≠ .union) :
    Reads (parenthesizedIf wanted ts) (.row .alternatives c.alternatives) := by
  by_cases hunion : c.level = .union
  · cases wanted with
    | true => exact absurd hunion (hwanted rfl)
    | false =>
      cases c with
      | union cs => exact h
      | _ => cases hunion
  · rw [alternatives_eq_singleton hunion]
    refine .lastType (hc.reads_parenthesizedIf h (hle.imp_right fun hle => ?_))
    revert hunion hle
    cases c.level <;> simp [Precedence.toNat, Row.level]

/-- The member of an intersection. -/
theorem IsProper.reads_operands (hc : c.IsProper) (h : Reads ts c.phrase)
    (hle : wanted = true ∨ Precedence.intersection.toNat ≤ c.level.toNat)
    (hwanted : wanted = true → c.level ≠ .intersection) :
    Reads (parenthesizedIf wanted ts) (.row .operands c.operands) := by
  by_cases hintersection : c.level = .intersection
  · cases wanted with
    | true => exact absurd hintersection (hwanted rfl)
    | false =>
      cases c with
      | intersection cs => exact h
      | _ => cases hintersection
  · rw [operands_eq_singleton hintersection]
    refine .lastType (hc.reads_parenthesizedIf h (hle.imp_right fun hle => ?_))
    revert hintersection hle
    cases c.level <;> simp [Precedence.toNat, Row.level]

/-- The element of an array. -/
theorem IsProper.reads_array (hc : c.IsProper) (h : Reads ts c.phrase)
    (hle : wanted = true ∨ Precedence.array.toNat ≤ c.level.toNat) :
    Reads (parenthesizedIf wanted ts ++ brackets 1) (.type .array c.array) :=
  .array (hc.reads_parenthesizedIf h hle)

end TypeTree

end Emission

namespace TypeExpr

variable {A : Alphabet} {name : Symbol → String}

/-! ## Types without losses are read back -/

/-- Unions and intersections are read with several members. -/
theorem isProper_tree (t : TypeExpr) : (t.tree name).IsProper := by
  have hmembers {f : TypeTree → List TypeTree} {first second : TypeExpr} {rest : List TypeExpr}
      (h : ∀ p ∈ first :: second :: rest, f (p.tree name) ≠ []) :
      2 ≤ ((trees name (first :: second :: rest)).flatMap f).length := by
    have hfirst := List.length_pos_iff.mpr (h first (by simp))
    have hsecond := List.length_pos_iff.mpr (h second (by simp))
    simp only [trees_eq_map, List.map_cons, List.flatMap_cons, List.length_append]
    omega
  induction t using partsInduction with
  | step t ih =>
    cases t with
    | union members =>
      match members with
      | [] => trivial
      | [single] => exact ih single (List.mem_singleton_self single)
      | first :: second :: rest =>
        exact hmembers fun p hp => (ih p hp).alternatives_ne_nil
    | intersection members =>
      match members with
      | [] => trivial
      | [single] => exact ih single (List.mem_singleton_self single)
      | first :: second :: rest => exact hmembers fun p hp => (ih p hp).operands_ne_nil
    | optional inner =>
      have hinner :=
        List.length_pos_iff.mpr (ih inner (List.mem_singleton_self inner)).alternatives_ne_nil
      show 2 ≤ ((inner.tree name).alternatives ++ [TypeTree.keyword "undefined"]).length
      rw [List.length_append, List.length_singleton]
      omega
    | _ => trivial

variable {t : TypeExpr}

/-- The names of the written parts are words, too. -/
theorem NamesAreWords.part {p : TypeExpr} (h : t.NamesAreWords A) (hp : p ∈ t.writtenParts) :
    p.NamesAreWords A := by
  intro fields hfields
  exact h fields (mem_nodes_of_mem_writtenParts hp hfields)

theorem lostIn_eq_zero {level : Precedence} {ts : List TypeExpr} (h : lostIn level ts = 0) :
    ∀ p ∈ ts, p.lost = 0 ∧ overlooked level p = 0 := by
  intro p hp
  rw [lostIn_eq_sum, List.sum_eq_zero_iff] at h
  have hp := h _ (List.mem_map_of_mem hp)
  omega

theorem lostInFields_eq_zero {fields : List (String × TypeExpr)} (h : lostInFields fields = 0) :
    ∀ field ∈ fields, field.2.present.lost = 0 := by
  intro field hfield
  rw [lostInFields_eq_sum, List.sum_eq_zero_iff] at h
  exact h _ (List.mem_map_of_mem hfield)

/-- A type is read where every type can stand. -/
theorem reads_type (h : Reads (t.tokens A name) (t.tree name).phrase) :
    Reads (t.tokens A name) (.type .type (t.tree name)) :=
  (isProper_tree t).reads h (Nat.zero_le _)

theorem reads_member_union (h : Reads (t.tokens A name) (t.tree name).phrase)
    (hlost : overlooked .union t = 0) :
    Reads (parenthesizedIf t.isFunction (t.tokens A name))
      (.row .alternatives (t.tree name).alternatives) := by
  apply (isProper_tree t).reads_alternatives h (isParenthesized_or_le name (by decide) hlost)
  intro hfunction
  cases t with
  | function params result => simp [tree, TypeTree.level]
  | _ => cases hfunction

theorem reads_member_intersection (h : Reads (t.tokens A name) (t.tree name).phrase)
    (hlost : overlooked .intersection t = 0) :
    Reads (parenthesizedIf (isLooserThanIntersection t) (t.tokens A name))
      (.row .operands (t.tree name).operands) := by
  apply (isProper_tree t).reads_operands h (isParenthesized_or_le name (by decide) hlost)
  intro hlooser heq
  have hcore : isParenthesized .intersection t.core = true :=
    isParenthesized_core_of_isParenthesized hlooser
  rw [isParenthesized_core name (by decide), heq] at hcore
  exact absurd hcore (by decide)

theorem reads_reference {symbol : Symbol} {args : List TypeExpr} (hname : A.IsPlain (name symbol))
    (h : ∀ p ∈ args, Reads (p.tokens A name) (p.tree name).phrase) :
    Reads (spelling A name (tokens A name) (reference symbol args))
      ((reference symbol args).tree name).phrase := by
  cases args with
  | nil => exact .name hname.2
  | cons arg args =>
    have hrow := Reads.row_separatedBy (r := .arguments) (f := fun p => [p.tree name])
      fun p hp => .lastType (reads_type (h p hp))
    rw [← List.map_eq_flatMap] at hrow
    have happlication := Reads.application hname.2 hrow
    rw [tree, trees_eq_map]
    exact happlication

theorem reads_union {members : List TypeExpr}
    (h : ∀ p ∈ members, p.lost = 0 → Reads (p.tokens A name) (p.tree name).phrase)
    (hlost : (union members).lost = 0) :
    Reads (spelling A name (tokens A name) (union members)) ((union members).tree name).phrase := by
  match members with
  | [] => exact .keyword (by decide)
  | [single] => exact h single (List.mem_singleton_self single) hlost
  | first :: second :: rest =>
    rw [lost] at hlost
    have hrow := Reads.row_separatedBy (r := .alternatives) fun p hp =>
      reads_member_union (h p hp (lostIn_eq_zero hlost p hp).1) (lostIn_eq_zero hlost p hp).2
    rw [tree, trees_eq_map, List.flatMap_map]
    exact hrow

theorem reads_intersection {members : List TypeExpr}
    (h : ∀ p ∈ members, p.lost = 0 → Reads (p.tokens A name) (p.tree name).phrase)
    (hlost : (intersection members).lost = 0) :
    Reads (spelling A name (tokens A name) (intersection members))
      ((intersection members).tree name).phrase := by
  match members with
  | [] => exact .keyword (by decide)
  | [single] => exact h single (List.mem_singleton_self single) hlost
  | first :: second :: rest =>
    rw [lost] at hlost
    have hrow := Reads.row_separatedBy (r := .operands) fun p hp =>
      reads_member_intersection (h p hp (lostIn_eq_zero hlost p hp).1) (lostIn_eq_zero hlost p hp).2
    rw [tree, trees_eq_map, List.flatMap_map]
    exact hrow

theorem reads_optional (h : Reads (t.tokens A name) (t.tree name).phrase)
    (hlost : overlooked .union t = 0) :
    Reads (spelling A name (tokens A name) (optional t)) ((optional t).tree name).phrase := by
  have hundefined : Reads [.word "undefined"] (.row .alternatives [.keyword "undefined"]) :=
    .lastType ((Reads.keyword (by decide)).loosen (by decide))
  exact (reads_member_union h hlost).row_append hundefined

theorem reads_array (h : Reads (t.tokens A name) (t.tree name).phrase)
    (hlost : overlooked .array t = 0) :
    Reads (spelling A name (tokens A name) (array t)) ((array t).tree name).phrase :=
  (isProper_tree t).reads_array h (isParenthesized_or_le name (by decide) hlost)

/-- The name of a member is read as one token. -/
theorem exists_label {field : String}
    (hword : Identifier.isValid field = true → A.isWord field = true) :
    ∃ tok, A.lex (propertyName field).toList = [tok] ∧ Owner.object.label? tok = some field := by
  unfold propertyName
  split
  case isTrue hvalid =>
    exact ⟨.word field, (Alphabet.spells_word (hword hvalid)).lex_eq, rfl⟩
  case isFalse =>
    have hquote : A.Spells (quote field) [.string field] := fun rest _ => A.lex_quote field rest
    exact ⟨.string field, hquote.lex_eq, rfl⟩

theorem reads_shape {fields : List (String × TypeExpr)}
    (hnames : ∀ field ∈ fields, Identifier.isValid field.1 = true → A.isWord field.1 = true)
    (h : ∀ field ∈ fields,
      Reads (field.2.present.tokens A name) (field.2.present.tree name).phrase) :
    Reads (spelling A name (tokens A name) (shape fields)) ((shape fields).tree name).phrase := by
  cases fields with
  | nil => exact .noFields
  | cons field fields =>
    have hfields : ∀ f ∈ field :: fields,
        Reads (fieldSpelling (fun n => A.lex (propertyName n).toList) (tokens A name) f)
          (.field .object (f.1, f.2.isOptional, f.2.present.tree name)) := by
      intro f hf
      obtain ⟨tok, hlex, hlabel⟩ := exists_label (hnames f hf)
      rw [fieldSpelling, hlex]
      exact .field _ hlabel (reads_type (h f hf))
    rw [tree, fieldTrees_eq_map]
    exact .object (Reads.fields_separatedBy hfields)

theorem reads_function {params : List (String × TypeExpr)} {result : TypeExpr}
    (hparams : ∀ p ∈ params, A.IsPlain p.1)
    (h : ∀ p ∈ params, Reads (p.2.present.tokens A name) (p.2.present.tree name).phrase)
    (h' : Reads (result.tokens A name) (result.tree name).phrase) :
    Reads (spelling A name (tokens A name) (function params result))
      ((function params result).tree name).phrase := by
  rw [tree, fieldTrees_eq_map]
  cases params with
  | nil => exact .noParameters (reads_type h')
  | cons param params =>
    have hfields : ∀ p ∈ param :: params,
        Reads (fieldSpelling (fun n => [.word n]) (tokens A name) p)
        (.field .function (p.1, p.2.isOptional, p.2.present.tree name)) := by
      intro p hp
      have hreserved : isReservedWord p.1 = false := by
        simpa using (Bool.and_eq_true_iff.mp (hparams p hp).2).2
      exact .field _ (by simp [Owner.label?, hreserved]) (reads_type (h p hp))
    exact .function (Reads.fields_separatedBy hfields) (reads_type h')

theorem reads_literal (value : Literal) :
    Reads (literalSpelling value) (.type .primary (.literal value)) := by
  cases value with
  | boolean b => exact .boolean b
  | text s => exact .text s
  | number x =>
    obtain ⟨negative, significand, exponent⟩ := x
    cases negative with
    | false => exact .number _
    | true => exact .negative _

/-- Without losses, the tokens of a type are read as the type. -/
theorem reads_tokens (ht : t.Legible A name) (hnames : t.NamesAreWords A) (hlost : t.lost = 0) :
    Reads (t.tokens A name) (t.tree name).phrase := by
  induction t using writtenInduction with
  | step t ih =>
    have hpart : ∀ p ∈ t.writtenParts, p.lost = 0 → Reads (p.tokens A name) (p.tree name).phrase :=
      fun p hp => ih p hp (ht.part hp) (hnames.part hp)
    rw [ht.tokens_eq]
    cases t with
    | reference symbol args =>
      apply reads_reference (ht.reference symbol args (self_mem_nodes _))
      rw [lost] at hlost
      exact fun p hp => hpart p hp (lostIn_eq_zero hlost p hp).1
    | union members => exact reads_union hpart hlost
    | intersection members => exact reads_intersection hpart hlost
    | optional inner =>
      rw [lost, Nat.add_eq_zero_iff] at hlost
      exact reads_optional (hpart inner (List.mem_singleton_self inner) hlost.1) hlost.2
    | array element =>
      rw [lost, Nat.add_eq_zero_iff] at hlost
      exact reads_array (hpart element (List.mem_singleton_self element) hlost.1) hlost.2
    | indexed key value =>
      rw [lost, Nat.add_eq_zero_iff] at hlost
      have hkey := hpart key (by simp [writtenParts, parts]) hlost.1
      have hvalue := hpart value (by simp [writtenParts, parts]) hlost.2
      exact .index (reads_type hkey) (reads_type hvalue)
    | shape fields =>
      rw [lost] at hlost
      apply reads_shape (hnames fields (self_mem_nodes _))
      intro field hfield
      exact hpart _ (List.mem_map_of_mem hfield) (lostInFields_eq_zero hlost field hfield)
    | function params result =>
      rw [lost, Nat.add_eq_zero_iff] at hlost
      apply reads_function (ht.parameter params result (self_mem_nodes _))
      · intro p hp
        exact hpart _ (List.mem_append_left _ (List.mem_map_of_mem hp))
          (lostInFields_eq_zero hlost.1 p hp)
      · exact hpart result (List.mem_append_right _ (List.mem_singleton_self result)) hlost.2
    | literal value => exact reads_literal value
    | var parameter => exact .name (ht.var parameter (self_mem_nodes _)).2
    | primitive kind => exact .keyword (by cases kind <;> decide)
    | verbatim text => exact absurd (self_mem_nodes _) (ht.verbatim text)
    | any => exact .keyword (by decide)

end TypeExpr

/-! ## Parentheses are written or lost -/

namespace Emission

theorem count_separatedBy {α : Type} {c : Char} (hc : c ≠ '(') (g : α → List Token) (xs : List α) :
    (separatedBy c (xs.map g)).count (.mark '(') =
      (xs.map fun x => (g x).count (.mark '(')).sum := by
  unfold separatedBy
  induction xs with
  | nil => rfl
  | cons x xs ih =>
    cases xs with
    | nil => simp
    | cons y ys =>
      rw [List.map_cons, List.map_cons] at ih ⊢
      simp [List.intercalate_cons_cons, ih, hc]

theorem count_parenthesizedIf (wanted : Bool) (ts : List Token) :
    (parenthesizedIf wanted ts).count (.mark '(') =
      ts.count (.mark '(') + if wanted = true then 1 else 0 := by
  cases wanted <;> simp [parenthesizedIf]

namespace TypeTree

theorem requiredAll_eq_sum (level : Precedence) (cs : List TypeTree) :
    requiredAll level cs = (cs.map fun c => c.required + c.paren level).sum := by
  induction cs with
  | nil => rfl
  | cons c cs ih => simp [requiredAll, ih]

theorem requiredFields_eq_sum (fields : List (String × Bool × TypeTree)) :
    requiredFields fields = (fields.map fun field => field.2.2.required).sum := by
  induction fields with
  | nil => rfl
  | cons field fields ih => simp [requiredFields, ih]

theorem requiredAll_flatMap {α : Type} (level : Precedence) (f : α → List TypeTree) (xs : List α) :
    requiredAll level (xs.flatMap f) = (xs.map fun x => requiredAll level (f x)).sum := by
  induction xs with
  | nil => rfl
  | cons x xs ih =>
    rw [List.flatMap_cons, requiredAll_eq_sum, List.map_append, List.sum_append,
      ← requiredAll_eq_sum, ← requiredAll_eq_sum, ih, List.map_cons, List.sum_cons]

/-- The members of a nested union need the parentheses that the union needs as a member. -/
theorem requiredAll_alternatives (c : TypeTree) :
    requiredAll .intersection c.alternatives = c.required + c.paren .union := by
  cases c <;> simp [alternatives, requiredAll, required, paren, level, Precedence.toNat]

theorem requiredAll_operands (c : TypeTree) :
    requiredAll .array c.operands = c.required + c.paren .intersection := by
  cases c <;> simp [operands, requiredAll, required, paren, level, Precedence.toNat]

end TypeTree

end Emission

namespace TypeExpr

variable {A : Alphabet} {name : Symbol → String} {t : TypeExpr}

/-- Whether the parentheses that a type needs are those that it has and those that are lost. -/
def Balanced (A : Alphabet) (name : Symbol → String) (t : TypeExpr) : Prop :=
  (t.tree name).required = (t.tokens A name).count (.mark '(') + t.lost

/-- The same for an operand. -/
theorem Balanced.operand (h : t.Balanced A name) (level : Precedence) (hlevel : level ≠ .primary) :
    (t.tree name).required + (t.tree name).paren level =
      (parenthesizedIf (isParenthesized level t) (t.tokens A name)).count (.mark '(') +
        (t.lost + overlooked level t) := by
  have h : (t.tree name).required = _ := h
  rw [count_parenthesizedIf, paren_tree name hlevel, h]
  omega

/-- The same for the members of a union or of an intersection. -/
theorem sum_operands (level : Precedence) (hlevel : level ≠ .primary) {c : Char} (hc : c ≠ '(')
    {members : List TypeExpr} (h : ∀ p ∈ members, p.Balanced A name) :
    (members.map fun p => (p.tree name).required + (p.tree name).paren level).sum =
      (separatedBy c (members.map fun p =>
        parenthesizedIf (isParenthesized level p) (p.tokens A name))).count (.mark '(') +
        lostIn level members := by
  rw [count_separatedBy hc, lostIn_eq_sum, ← List.sum_map_add]
  exact congrArg List.sum (List.map_congr_left fun p hp => (h p hp).operand level hlevel)

/-- The same for fields. -/
theorem sum_fields (label : String → List Token) {fields : List (String × TypeExpr)}
    (hlabel : ∀ field ∈ fields, (label field.1).count (.mark '(') = 0)
    (h : ∀ field ∈ fields, field.2.present.Balanced A name) :
    TypeTree.requiredFields (fieldTrees name fields) =
      (separatedBy ',' (fields.map (fieldSpelling label (tokens A name)))).count (.mark '(') +
        lostInFields fields := by
  rw [TypeTree.requiredFields_eq_sum, fieldTrees_eq_map, List.map_map,
    count_separatedBy (by decide), lostInFields_eq_sum, ← List.sum_map_add]
  refine congrArg List.sum (List.map_congr_left fun field hfield => ?_)
  have hbalanced : (field.2.present.tree name).required = _ := h field hfield
  have hmark : (optionalMark field.2.isOptional).count (.mark '(') = 0 := by
    cases field.2.isOptional <;> rfl
  simp [fieldSpelling, hlabel field hfield, hmark, hbalanced]

theorem balanced (ht : t.Legible A name) (hnames : t.NamesAreWords A) : t.Balanced A name := by
  induction t using writtenInduction with
  | step t ih =>
    have hpart : ∀ p ∈ t.writtenParts, p.Balanced A name :=
      fun p hp => ih p hp (ht.part hp) (hnames.part hp)
    unfold Balanced
    rw [ht.tokens_eq]
    cases t with
    | reference symbol args =>
      cases args with
      | nil => rfl
      | cons arg args =>
        have hsum := sum_operands .type (c := ',') (by decide) (by decide) hpart
        rw [tree, TypeTree.required, TypeTree.requiredAll_eq_sum, trees_eq_map, List.map_map, lost]
        refine Eq.trans hsum ?_
        simp [spelling, isParenthesized, parenthesizedIf, writtenParts, parts]
    | union members =>
      rcases members with _ | ⟨single, _ | ⟨second, rest⟩⟩
      · rfl
      · exact hpart single (List.mem_singleton_self single)
      · rw [tree, TypeTree.required, TypeTree.requiredAll_flatMap, trees_eq_map, List.map_map, lost]
        simp only [Function.comp_def, TypeTree.requiredAll_alternatives]
        exact sum_operands .union (by decide) (by decide) hpart
    | intersection members =>
      rcases members with _ | ⟨single, _ | ⟨second, rest⟩⟩
      · rfl
      · exact hpart single (List.mem_singleton_self single)
      · rw [tree, TypeTree.required, TypeTree.requiredAll_flatMap, trees_eq_map, List.map_map, lost]
        simp only [Function.comp_def, TypeTree.requiredAll_operands]
        exact sum_operands .intersection (by decide) (by decide) hpart
    | optional inner =>
      have hinner := (hpart inner (List.mem_singleton_self inner)).operand .union (by decide)
      rw [tree, TypeTree.required, TypeTree.requiredAll_eq_sum, List.map_append, List.sum_append,
        ← TypeTree.requiredAll_eq_sum, TypeTree.requiredAll_alternatives, hinner, lost]
      simp [spelling, isParenthesized, TypeTree.required, TypeTree.paren, TypeTree.level,
        Precedence.toNat]
    | array element =>
      have helement := (hpart element (List.mem_singleton_self element)).operand .array (by decide)
      rw [tree, TypeTree.required, helement, lost]
      simp [spelling, isParenthesized, count_brackets]
    | indexed key value =>
      have hkey : (key.tree name).required = _ := hpart key (by simp [writtenParts, parts])
      have hvalue : (value.tree name).required = _ := hpart value (by simp [writtenParts, parts])
      rw [tree, TypeTree.required, hkey, hvalue, lost]
      simp [spelling]
      omega
    | shape fields =>
      cases fields with
      | nil => rfl
      | cons field fields =>
        have hlabel : ∀ f ∈ field :: fields,
            (A.lex (propertyName f.1).toList).count (.mark '(') = 0 := by
          intro f hf
          obtain ⟨tok, hlex, htok⟩ := exists_label (hnames _ (self_mem_nodes _) f hf)
          rw [hlex]
          cases tok <;> simp [Owner.label?] at htok ⊢
        have hfields := sum_fields (fun n => A.lex (propertyName n).toList) hlabel
          fun f hf => hpart _ (List.mem_map_of_mem hf)
        rw [tree, TypeTree.required, hfields, lost]
        simp [spelling]
    | function params result =>
      have hparams := sum_fields (fun n => [.word n]) (fun _ _ => rfl)
        fun p hp => hpart _ (List.mem_append_left _ (List.mem_map_of_mem hp))
      have hresult : (result.tree name).required = _ :=
        hpart result (List.mem_append_right _ (List.mem_singleton_self result))
      rw [tree, TypeTree.required, hparams, hresult, lost]
      simp [spelling]
      omega
    | literal value =>
      cases value with
      | number x =>
        obtain ⟨negative, significand, exponent⟩ := x
        cases negative <;> rfl
      | _ => rfl
    | verbatim text => exact absurd (self_mem_nodes _) (ht.verbatim text)
    | _ => rfl

/-! ## Names that are no words -/

theorem subset_parenthesizedIf (wanted : Bool) (ts : List Token) :
    ts ⊆ parenthesizedIf wanted ts := by
  intro tok htok
  cases wanted <;> simp [parenthesizedIf, htok]

theorem subset_separatedBy {α : Type} (c : Char) (g : α → List Token) {xs : List α} {x : α}
    (hx : x ∈ xs) : g x ⊆ separatedBy c (xs.map g) := by
  unfold separatedBy
  induction xs with
  | nil => cases hx
  | cons y ys ih =>
    intro tok htok
    cases ys with
    | nil =>
      obtain rfl := List.mem_singleton.mp hx
      simpa using htok
    | cons z zs =>
      rw [List.map_cons, List.map_cons, List.intercalate_cons_cons, ← List.map_cons,
        List.mem_append, List.mem_append]
      rcases List.mem_cons.mp hx with rfl | hx
      · exact .inl (.inl htok)
      · exact .inr (ih hx htok)

theorem mem_fieldSpelling {label : String → List Token} {ts : TypeExpr → List Token}
    {field : String × TypeExpr} {tok : Token} (h : tok ∈ ts field.2.present) :
    tok ∈ fieldSpelling label ts field := by
  simp [fieldSpelling, h]

/-- The tokens of a written part are tokens of the type. -/
theorem Legible.tokens_subset (ht : t.Legible A name) {p : TypeExpr} (hp : p ∈ t.writtenParts) :
    p.tokens A name ⊆ t.tokens A name := by
  intro tok htok
  rw [ht.tokens_eq]
  cases t with
  | reference symbol args =>
    cases args with
    | nil => cases hp
    | cons arg args =>
      have hmem := subset_separatedBy ',' (tokens A name) hp htok
      simp only [spelling, List.mem_cons, List.mem_append]
      exact .inr (.inr (.inl hmem))
  | union members =>
    rcases members with _ | ⟨single, _ | ⟨second, rest⟩⟩
    · cases hp
    · rwa [List.mem_singleton.mp hp] at htok
    · exact subset_separatedBy '|' (fun t => parenthesizedIf t.isFunction (t.tokens A name)) hp
        (subset_parenthesizedIf _ _ htok)
  | intersection members =>
    rcases members with _ | ⟨single, _ | ⟨second, rest⟩⟩
    · cases hp
    · rwa [List.mem_singleton.mp hp] at htok
    · exact subset_separatedBy '&' (fun t => parenthesizedIf (isLooserThanIntersection t)
        (t.tokens A name)) hp (subset_parenthesizedIf _ _ htok)
  | optional _ | array _ =>
    obtain rfl := List.mem_singleton.mp hp
    exact List.mem_append_left _ (subset_parenthesizedIf _ _ htok)
  | indexed key value =>
    simp only [writtenParts, parts, List.mem_cons, List.not_mem_nil, or_false] at hp
    rcases hp with rfl | rfl <;> simp [spelling, htok]
  | shape fields =>
    obtain ⟨field, hfield, rfl⟩ := List.mem_map.mp hp
    cases fields with
    | nil => cases hfield
    | cons first fields =>
      have hmem := subset_separatedBy ','
        (fieldSpelling (fun n => A.lex (propertyName n).toList) (tokens A name)) hfield
        (mem_fieldSpelling htok)
      simp only [spelling, List.mem_cons, List.mem_append]
      exact .inr (.inl hmem)
  | function params result =>
    simp only [spelling, List.mem_cons, List.mem_append]
    rcases List.mem_append.mp hp with hp | hp
    · obtain ⟨param, hparam, rfl⟩ := List.mem_map.mp hp
      have hmem :=
        subset_separatedBy ',' (fieldSpelling (fun n => [.word n]) (tokens A name)) hparam
        (mem_fieldSpelling htok)
      exact .inr (.inl hmem)
    · obtain rfl := List.mem_singleton.mp hp
      exact .inr (.inr (.inr (.inr htok)))
  | _ => cases hp

/-- A node other than an `optional` is the type itself or a node of a written part. -/
theorem eq_or_mem_nodes {u : TypeExpr} (hu : u ∈ t.nodes) (hoptional : u.isOptional = false) :
    u = t ∨ ∃ p ∈ t.writtenParts, u ∈ p.nodes := by
  have hpresent {q : TypeExpr} (hq : u ∈ q.nodes) : u ∈ q.present.nodes := by
    cases q with
    | optional inner =>
      rcases List.mem_cons.mp hq with rfl | hq
      · cases hoptional
      · exact hq
    | _ => exact hq
  rw [nodes_eq, List.mem_cons, List.mem_flatMap] at hu
  rcases hu with rfl | ⟨p, hp, hu⟩
  · exact .inl rfl
  · right
    cases t with
    | shape fields =>
      obtain ⟨field, hfield, rfl⟩ := List.mem_map.mp hp
      exact ⟨field.2.present, List.mem_map_of_mem hfield, hpresent hu⟩
    | function params result =>
      rcases List.mem_append.mp hp with hp | hp
      · obtain ⟨param, hparam, rfl⟩ := List.mem_map.mp hp
        exact ⟨param.2.present, List.mem_append_left _ (List.mem_map_of_mem hparam), hpresent hu⟩
      · exact ⟨p, List.mem_append_right _ hp, hu⟩
    | _ => exact ⟨p, hp, hu⟩

/-- A name that is written as a word but is none leaves a mark without a meaning. -/
theorem exists_not_isMeaningful (ht : t.Legible A name) (hnames : ¬ t.NamesAreWords A) :
    ∃ tok ∈ t.tokens A name, tok.isMeaningful = false := by
  simp only [NamesAreWords, not_forall] at hnames
  obtain ⟨fields, hshape, field, hfield, hvalid, hword⟩ := hnames
  induction t using writtenInduction with
  | step t ih =>
    rcases eq_or_mem_nodes hshape rfl with rfl | ⟨p, hp, hshape⟩
    · obtain ⟨c, hc, hmark⟩ := A.exists_stray hvalid (by simpa using hword)
      refine ⟨.mark c, ?_, by simpa [Token.isMeaningful] using hc⟩
      rw [ht.tokens_eq]
      cases fields with
      | nil => cases hfield
      | cons first fields =>
        have hlabel : .mark c ∈ A.lex (propertyName field.1).toList := by
          rwa [propertyName, if_pos hvalid]
        have hmem := subset_separatedBy ','
          (fieldSpelling (fun n => A.lex (propertyName n).toList) (tokens A name)) hfield
          (List.mem_append_left _ hlabel)
        simp only [spelling, List.mem_cons, List.mem_append]
        exact .inr (.inl hmem)
    · obtain ⟨tok, htok, hmeaningful⟩ := ih p hp (ht.part hp) hshape
      exact ⟨tok, ht.tokens_subset hp htok, hmeaningful⟩

end TypeExpr

/-! ## Reading back -/

/-- The text of a legible type is read as the type and as nothing else iff no operand has lost its
parentheses and every name that stands without quotes is a word. -/
theorem reads_text_iff (A : Alphabet) (name : Symbol → String) (t : TypeExpr)
    (ht : t.Legible A name) :
    (∀ c, Reads (A.lex (t.text name).toList) (.type .type c) ↔ c = t.tree name) ↔
      t.lost = 0 ∧ t.NamesAreWords A := by
  constructor
  · intro h
    have hread : Reads (t.tokens A name) (.type .type (t.tree name)) := (h _).mpr rfl
    have hnames : t.NamesAreWords A := by
      by_contra hnames
      obtain ⟨tok, htok, hmeaningful⟩ := TypeExpr.exists_not_isMeaningful ht hnames
      simp [hread.isMeaningful tok htok] at hmeaningful
    refine ⟨?_, hnames⟩
    have hcount := hread.required_le
    have hbalanced : (t.tree name).required = _ := TypeExpr.balanced ht hnames
    simp only [Phrase.required, TypeTree.paren_type] at hcount
    omega
  · rintro ⟨hlost, hnames⟩ c
    have hread := TypeExpr.reads_type (TypeExpr.reads_tokens ht hnames hlost)
    constructor
    · intro hc
      exact (Phrase.type.inj (hc.unique hread rfl)).2
    · rintro rfl
      exact hread

/-- An array of optional texts is read back, but not if the element is a union of one type. -/
theorem reads_text_iff_optional :
    (∀ c, Reads (Alphabet.ascii.lex
      ((TypeExpr.array (.optional .string)).text (fun _ => "A")).toList)
      (.type .type c) ↔ c = .array (.union [.keyword "string", .keyword "undefined"])) ∧
    ¬ ∀ c, Reads (Alphabet.ascii.lex
      ((TypeExpr.array (.union [.optional .string])).text (fun _ => "A")).toList)
      (.type .type c) ↔ c = .array (.union [.keyword "string", .keyword "undefined"]) := by
  have hlegible (t : TypeExpr) (h : t = .array (.optional .string) ∨
      t = .array (.union [.optional .string])) : t.Legible Alphabet.ascii fun _ => "A" := by
    rcases h with rfl | rfl <;> constructor <;> simp [TypeExpr.nodes]
  constructor
  · apply (reads_text_iff Alphabet.ascii (fun _ => "A") _ (hlegible _ (Or.inl rfl))).mpr
    refine ⟨rfl, ?_⟩
    intro fields hfields
    simp [TypeExpr.nodes] at hfields
  · intro h
    have hlost := (reads_text_iff Alphabet.ascii (fun _ => "A") _ (hlegible _ (Or.inr rfl))).mp h
    exact absurd hlost.1 (by decide)

end Typings
