import Typings.Proofs.Text.Word

/-!
# Repaired identifiers

A name is made an identifier in two steps: dashed words are joined, and what an identifier cannot
hold is dropped. What is left is an identifier or nothing, and each of its characters is one of the
name or belongs to the upper-case form of a character after a dash. No more is dropped than has to
be: of the identifiers that can be made of the joined words by dropping characters, the one that is
left holds all others. So an identifier, which has no dashes to join, is left as it is.

## Main results

* `Identifier.isValid_repair_iff`: a name that is made an identifier is one unless nothing is left
  of it.
* `Identifier.of_mem_joinDashed`, `Identifier.mem_joinDashed`: the characters of joined words.
* `Identifier.of_mem_keepValid`, `Identifier.mem_keepValid`: the characters that are not dropped.
* `Identifier.sublist_keepValid_iff`: no more is dropped than has to be.
* `Identifier.repair_normalizes`: repairing makes identifiers, and leaves them as they are.
-/

namespace Typings.Identifier

open scoped List

/-! ## Joined words -/

variable {c : Char} {cs : List Char}

theorem of_mem_joinDashed {u : Char} (h : u ∈ joinDashed cs) :
    u ∈ cs ∨ ∃ c, c ≠ '-' ∧ ['-', c] <:+: cs ∧ u ∈ Text.upper c := by
  have hlater (front : List Char) {rest : List Char}
      (h : u ∈ rest ∨ ∃ c, c ≠ '-' ∧ ['-', c] <:+: rest ∧ u ∈ Text.upper c) :
      u ∈ front ++ rest ∨ ∃ c, c ≠ '-' ∧ ['-', c] <:+: front ++ rest ∧ u ∈ Text.upper c := by
    rcases h with hmem | ⟨c, hc, hdashed, hu⟩
    · exact .inl (List.mem_append_right front hmem)
    · exact .inr ⟨c, hc, hdashed.trans (List.suffix_append front rest).isInfix, hu⟩
  fun_induction joinDashed cs with
  | case1 => exact .inl h
  | case2 rest ih =>
    rcases List.mem_cons.mp h with rfl | h
    · exact .inl List.mem_cons_self
    · exact hlater ['-'] (ih h)
  | case3 next rest hdash ih =>
    rcases List.mem_append.mp h with hu | h
    · exact .inr ⟨next, hdash, (List.prefix_append ['-', next] rest).isInfix, hu⟩
    · exact hlater ['-', next] (ih h)
  | case4 c rest _ ih =>
    rcases List.mem_cons.mp h with rfl | h
    · exact .inl List.mem_cons_self
    · exact hlater [c] (ih h)

theorem mem_joinDashed {u : Char} (hc : c ≠ '-') (hdashed : ['-', c] <:+: cs)
    (hu : u ∈ Text.upper c) : u ∈ joinDashed cs := by
  fun_induction joinDashed cs with
  | case1 => exact absurd (List.infix_nil.mp hdashed) (List.cons_ne_nil _ _)
  | case2 rest ih =>
    rcases List.infix_cons_iff.mp hdashed with hbegin | hrest
    · simp only [List.cons_prefix_cons] at hbegin
      exact absurd hbegin.2.1 hc
    · exact List.mem_cons_of_mem _ (ih hrest)
  | case3 next rest hdash ih =>
    rw [List.mem_append]
    rcases List.infix_cons_iff.mp hdashed with hbegin | hrest
    · simp only [List.cons_prefix_cons] at hbegin
      exact .inl (hbegin.2.1 ▸ hu)
    · rcases List.infix_cons_iff.mp hrest with hbegin | hrest
      · exact absurd (List.cons_prefix_cons.mp hbegin).1.symm hdash
      · exact .inr (ih hrest)
  | case4 first rest hother ih =>
    rcases List.infix_cons_iff.mp hdashed with hbegin | hrest
    · obtain ⟨hfirst, tail, htail⟩ := List.cons_prefix_cons.mp hbegin
      exact absurd htail.symm (hother c tail hfirst.symm)
    · exact List.mem_cons_of_mem _ (ih hrest)

theorem joinDashed_eq_self (h : '-' ∉ cs) : joinDashed cs = cs := by
  fun_induction joinDashed cs with
  | case1 => rfl
  | case2 rest _ => exact absurd List.mem_cons_self h
  | case3 next rest _ _ => exact absurd List.mem_cons_self h
  | case4 c rest _ ih => rw [ih fun hrest => h (List.mem_cons_of_mem _ hrest)]

/-! ## Kept characters -/

/-- Behind a character that was kept, all that can stand inside an identifier is kept. -/
theorem foldl_pushValid {kept : List Char} (h : kept ≠ []) (cs : List Char) :
    cs.foldl pushValid kept = kept ++ cs.filter isPart := by
  induction cs generalizing kept with
  | nil => simp
  | cons c cs ih =>
    have hpart : (if kept.isEmpty then isStart c else isPart c) = isPart c := by simp [h]
    rw [List.foldl_cons, pushValid, hpart, List.filter_cons]
    split
    · rw [ih (by simp), List.append_assoc, List.singleton_append]
    · exact ih h

theorem keepValid_cons (c : Char) (cs : List Char) :
    keepValid (c :: cs) = if isStart c then c :: cs.filter isPart else keepValid cs := by
  rw [keepValid, List.foldl_cons, pushValid, List.isEmpty_nil, if_pos rfl]
  split
  · exact foldl_pushValid (List.cons_ne_nil c []) cs
  · rfl

theorem keepValid_sublist (cs : List Char) : keepValid cs <+ cs := by
  induction cs with
  | nil => exact .refl _
  | cons c cs ih =>
    rw [keepValid_cons]
    split
    · exact List.filter_sublist.cons_cons c
    · exact ih.cons c

theorem isValidChars_keepValid (h : keepValid cs ≠ []) : isValidChars (keepValid cs) = true := by
  induction cs with
  | nil => exact absurd rfl h
  | cons c cs ih =>
    rw [keepValid_cons] at h ⊢
    split at h
    case isTrue hstart => simp [isValidChars, hstart]
    case isFalse hstart => simpa [hstart] using ih h

theorem isPart_of_isValidChars (h : isValidChars cs = true) (hc : c ∈ cs) : isPart c = true := by
  cases cs with
  | nil => cases hc
  | cons first rest =>
    obtain ⟨hstart, hrest⟩ := Bool.and_eq_true_iff.mp h
    rcases List.mem_cons.mp hc with rfl | hc
    · exact isPart_of_isStart hstart
    · exact List.all_eq_true.mp hrest c hc

theorem of_mem_keepValid (h : c ∈ keepValid cs) : c ∈ cs ∧ isPart c = true :=
  ⟨(keepValid_sublist cs).subset h,
    isPart_of_isValidChars (isValidChars_keepValid (List.ne_nil_of_mem h)) h⟩

theorem sublist_keepValid {ds : List Char} (hvalid : isValidChars ds = true) (h : ds <+ cs) :
    ds <+ keepValid cs := by
  have hparts : ∀ d ∈ ds, isPart d = true := fun d hd => isPart_of_isValidChars hvalid hd
  induction cs with
  | nil =>
    rw [List.sublist_nil.mp h] at hvalid
    cases hvalid
  | cons c cs ih =>
    rw [keepValid_cons]
    split
    case isTrue hstart =>
      have hfiltered := h.filter isPart
      rwa [List.filter_eq_self.mpr hparts,
        List.filter_cons_of_pos (isPart_of_isStart hstart)] at hfiltered
    case isFalse hstart =>
      cases h with
      | cons _ h => exact ih h
      | cons_cons _ h => exact absurd (Bool.and_eq_true_iff.mp hvalid).1 hstart

theorem mem_keepValid (hc : c ∈ cs) (hstart : isStart c = true) : c ∈ keepValid cs := by
  have hvalid : isValidChars [c] = true := by simpa [isValidChars] using hstart
  exact List.singleton_sublist.mp (sublist_keepValid hvalid (List.singleton_sublist.mpr hc))

/-- The identifiers among the characters are those among the kept ones: no more is dropped than has
to be. -/
theorem sublist_keepValid_iff {ds : List Char} (hvalid : isValidChars ds = true) :
    ds <+ cs ↔ ds <+ keepValid cs :=
  ⟨sublist_keepValid hvalid, fun h => h.trans (keepValid_sublist cs)⟩

theorem keepValid_eq_self (h : isValidChars cs = true) : keepValid cs = cs :=
  (keepValid_sublist cs).eq_of_length_le (sublist_keepValid h (.refl cs)).length_le

/-! ## Repaired names -/

theorem isPart_of_mem_repair {name : String} (h : c ∈ (repair name).toList) : isPart c = true := by
  rw [repair, String.toList_ofList] at h
  exact (of_mem_keepValid h).2

theorem isValid_repair_iff (name : String) : isValid (repair name) = true ↔ repair name ≠ "" := by
  constructor
  · intro hvalid hempty
    rw [hempty] at hvalid
    exact absurd hvalid (by decide)
  · intro hne
    rw [isValid, repair, String.toList_ofList]
    refine isValidChars_keepValid fun hnil => hne ?_
    rw [repair, hnil, String.ofList_nil]

theorem not_mem_of_isValidChars (h : isValidChars cs = true) : '-' ∉ cs := by
  intro hdash
  exact absurd (isPart_of_isValidChars h hdash) (by decide +kernel)

theorem repair_eq_self {name : String} (h : isValid name = true) : repair name = name := by
  rw [repair, joinDashed_eq_self (not_mem_of_isValidChars h), keepValid_eq_self h,
    String.ofList_toList]

theorem repair_eq_empty_or (name : String) : repair name = "" ∨ isValid (repair name) = true := by
  rw [isValid_repair_iff]
  exact Classical.em _

theorem repair_eq_self_iff (name : String) :
    repair name = name ↔ name = "" ∨ isValid name = true := by
  constructor
  · intro hfixed
    have hname := repair_eq_empty_or name
    rwa [hfixed] at hname
  · rintro (rfl | hvalid)
    · rfl
    · exact repair_eq_self hvalid

/-- Repairing a name normalizes it. The result is empty or an identifier, exactly these names are
left as they are, and so a second repair changes nothing. The result holds all identifiers that can
be made of the joined words by dropping characters. -/
theorem repair_normalizes (name : String) :
    (repair name = "" ∨ isValid (repair name) = true) ∧
      (repair name = name ↔ name = "" ∨ isValid name = true) ∧
      repair (repair name) = repair name ∧
      ∀ cs, isValidChars cs = true → (cs <+ joinDashed name.toList ↔
        cs <+ (repair name).toList) := by
  refine ⟨repair_eq_empty_or name, repair_eq_self_iff name,
    (repair_eq_self_iff _).mpr (repair_eq_empty_or name), fun cs hvalid => ?_⟩
  rw [repair, String.toList_ofList]
  exact sublist_keepValid_iff hvalid

/-- Of two dashes the second one joins words; the first one is dropped, as is the digit at the
front. -/
example : repair "9-lives--left" = "LivesLeft" := by decide +kernel

end Typings.Identifier
