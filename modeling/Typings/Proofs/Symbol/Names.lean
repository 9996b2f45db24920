import Mathlib.Data.List.Induction
import Mathlib.Data.String.Basic
import Typings.Proofs.Distinct
import Typings.Proofs.Lookup
import Typings.Proofs.Symbol.Table
import Typings.Symbol.Names

/-!
# Resolved names

## Main definitions

* `OrderedBy`: a map has the entries of a function, in the order of their names.

## Main results

* `OrderedBy.updateEntry`: changing an entry changes the function at one name.
* `OrderedBy.firstShared?_eq_some`: the search finds the least name with several owners.
* `orderedBy_claimants`, `Names.orderedBy_owners`: what the two checks collect.
* `ResolvedName.fullName_ofFullName`: a name is the same when it is cut and put together again.
* `SymbolTable.origin?_of_resolve`: names have the origins of their table.
* `SymbolTable.exists_resolve_of_perm`: the order of the table does not matter.
* `Names.conflict?_eq_none_iff`: there is no conflict if no two symbols share a name.
* `Names.nodup_map_fullName?_iff`: names are distinct if symbols are.
-/

namespace Typings

/-! ## Owners of names -/

section Owners

variable {α : Type} {map : List (String × List α)} {f : String → List α} {name : String}
  {change : List α → List α}

/-- Whether entries are in the order of their names and have for every name what a function has;
names without an entry have nothing. -/
structure OrderedBy (map : List (String × List α)) (f : String → List α) : Prop where
  sorted : map.Pairwise (·.1 < ·.1)
  lookup_eq (name : String) : map.lookup name = if f name = [] then none else some (f name)

theorem mem_keys_updateEntry {key : String} :
    (∃ owners, (key, owners) ∈ updateEntry name change map) ↔
      key = name ∨ ∃ owners, (key, owners) ∈ map := by
  induction map with
  | nil => simp [updateEntry]
  | cons entry rest ih =>
    obtain ⟨first, owners⟩ := entry
    rw [updateEntry]
    split
    · grind
    · split <;> grind

theorem sorted_updateEntry (h : map.Pairwise (·.1 < ·.1)) :
    (updateEntry name change map).Pairwise (·.1 < ·.1) := by
  induction map with
  | nil => exact List.pairwise_singleton _ _
  | cons entry rest ih =>
    obtain ⟨hfirst, hrest⟩ := List.pairwise_cons.mp h
    rw [updateEntry]
    split
    case isTrue hlt =>
      refine List.pairwise_cons.mpr ⟨List.forall_mem_cons.mpr ⟨hlt, fun e he => ?_⟩, h⟩
      exact hlt.trans (hfirst e he)
    case isFalse hlt =>
      split
      case isTrue heq => exact List.pairwise_cons.mpr ⟨fun e he => heq ▸ hfirst e he, hrest⟩
      case isFalse hne =>
        refine List.pairwise_cons.mpr ⟨fun e he => ?_, ih hrest⟩
        rcases mem_keys_updateEntry.mp ⟨e.2, he⟩ with hkey | ⟨owners, howners⟩
        · rw [hkey]
          exact lt_of_le_of_ne (not_lt.mp hlt) (Ne.symm hne)
        · exact hfirst (e.1, owners) howners

theorem lookup_eq_none_of_lt (h : ∀ entry ∈ map, name < entry.1) : map.lookup name = none := by
  rw [List.lookup_eq_none_iff]
  intro entry hentry
  exact bne_iff_ne.mpr (h entry hentry).ne

theorem lookup_updateEntry (h : map.Pairwise (·.1 < ·.1)) (key : String) :
    (updateEntry name change map).lookup key =
      if key = name then some (change ((map.lookup name).getD [])) else map.lookup key := by
  induction map with
  | nil => grind [updateEntry]
  | cons entry rest ih =>
    obtain ⟨first, had⟩ := entry
    obtain ⟨hfirst, hrest⟩ := List.pairwise_cons.mp h
    rw [updateEntry]
    split
    case isTrue hlt =>
      have hnone : ((first, had) :: rest).lookup name = none := lookup_eq_none_of_lt
        (List.forall_mem_cons.mpr ⟨hlt, fun e he => hlt.trans (hfirst e he)⟩)
      grind
    case isFalse hlt =>
      split
      case isTrue heq => grind
      case isFalse hne =>
        rw [List.lookup_cons, List.lookup_cons, ih hrest]
        grind

theorem OrderedBy.updateEntry (h : OrderedBy map f) (hne : change (f name) ≠ []) :
    OrderedBy (updateEntry name change map) fun n => if n = name then change (f n) else f n where
  sorted := sorted_updateEntry h.sorted
  lookup_eq key := by
    rw [lookup_updateEntry h.sorted, h.lookup_eq, h.lookup_eq]
    grind

theorem OrderedBy.mem_iff (h : OrderedBy map f) {entry : String × List α} :
    entry ∈ map ↔ entry.2 = f entry.1 ∧ entry.2 ≠ [] := by
  have hnodup : (map.map (·.1)).Nodup := List.pairwise_map.mpr (h.sorted.imp ne_of_lt)
  have hlookup := lookup_key_eq_some_iff (k := entry.1) (a := entry.2) hnodup
  rw [← hlookup, h.lookup_eq]
  grind

theorem OrderedBy.firstShared?_eq_none_iff (h : OrderedBy map f) :
    firstShared? map = none ↔ ∀ n, (f n).length ≤ 1 := by
  simp only [firstShared?, List.find?_eq_none, decide_eq_true_eq, Nat.not_lt]
  constructor
  · intro hall n
    by_cases hempty : f n = []
    · simp [hempty]
    · exact hall (n, f n) (h.mem_iff.mpr ⟨rfl, hempty⟩)
  · intro hall entry hentry
    rw [(h.mem_iff.mp hentry).1]
    exact hall entry.1

theorem orderedBy_nil : OrderedBy ([] : List (String × List α)) fun _ => [] where
  sorted := .nil
  lookup_eq _ := rfl

theorem OrderedBy.congr {g : String → List α} (h : OrderedBy map f) (hfg : ∀ n, f n = g n) :
    OrderedBy map g := by
  obtain rfl : f = g := funext hfg
  exact h

theorem orderedBy_claimants (claims : List (String × α)) :
    OrderedBy (claimants claims) fun n => (claims.filter (·.1 == n)).map (·.2) := by
  induction claims using List.reverseRecOn with
  | nil => exact orderedBy_nil
  | append_singleton claims claim ih =>
    rw [claimants, List.foldl_concat]
    refine (ih.updateEntry (by simp)).congr fun n => ?_
    by_cases hname : n = claim.1
    · simp [hname]
    · simp [hname, Ne.symm hname]

/-- No name is shared if none is claimed twice. -/
theorem firstShared?_claimants_eq_none {claims : List (String × α)} :
    firstShared? (claimants claims) = none ↔ (claims.map (·.1)).Nodup := by
  rw [(orderedBy_claimants claims).firstShared?_eq_none_iff, List.nodup_iff_count_le_one]
  refine forall_congr' fun n => ?_
  rw [List.length_map, List.count, List.countP_map, List.countP_eq_length_filter]
  rfl

/-- A list without repetitions is longer than one entry if it has two different ones. -/
theorem one_lt_length_iff_of_nodup {as : List α} (hnodup : as.Nodup) :
    1 < as.length ↔ ∃ a b, a ≠ b ∧ a ∈ as ∧ b ∈ as := by
  rcases as with _ | ⟨a, _ | ⟨b, rest⟩⟩
  · simp
  · simp only [List.length_singleton, Nat.lt_irrefl, List.mem_singleton, false_iff]
    rintro ⟨b, b', hne, rfl, rfl⟩
    exact hne rfl
  · have hne : a ≠ b := List.ne_of_not_mem_cons (List.nodup_cons.mp hnodup).1
    exact iff_of_true (by simp) ⟨a, b, hne, by simp, by simp⟩

end Owners

theorem Names.orderedBy_owners (names : Names) (symbols : List Symbol) :
    OrderedBy (names.owners symbols) fun n =>
      symbols.eraseDups.filter (names.fullName? · == some n) := by
  induction symbols using List.reverseRecOn with
  | nil => exact orderedBy_nil
  | append_singleton symbols symbol ih =>
    rw [owners, List.foldl_concat, ← owners]
    cases hname : names.fullName? symbol with
    | none =>
      refine ih.congr fun n => ?_
      rw [eraseDups_concat]
      split <;> simp [hname]
    | some name =>
      refine (ih.updateEntry ?_).congr fun n => ?_
      · split
        case isTrue hmem => exact List.ne_nil_of_mem hmem
        case isFalse => simp
      rw [eraseDups_concat]
      by_cases hmem : symbol ∈ symbols
      · by_cases heq : n = name <;> simp [hmem, hname, heq]
      · by_cases heq : n = name
        · simp [hmem, hname, heq]
        · simp [hmem, hname, heq, Ne.symm heq]
/-- A name has two owners among distinct symbols if two of them have it. -/
theorem one_lt_length_filter_iff {name? : Symbol → Option String} {symbols : List Symbol}
    (hnodup : symbols.Nodup) {name : String} :
    1 < (symbols.filter (name? · == some name)).length ↔
      ∃ s s', s ≠ s' ∧ s ∈ symbols ∧ s' ∈ symbols ∧ name? s = some name ∧ name? s' = some name := by
  rw [one_lt_length_iff_of_nodup (hnodup.filter _)]
  simp only [List.mem_filter, beq_iff_eq]
  constructor
  · rintro ⟨s, s', hne, ⟨hs, hname⟩, hs', hname'⟩
    exact ⟨s, s', hne, hs, hs', hname, hname'⟩
  · rintro ⟨s, s', hne, hs, hs', hname, hname'⟩
    exact ⟨s, s', hne, ⟨hs, hname⟩, hs', hname'⟩

/-! ## Dotted names -/

/-- The parts of a text, with the separator between them, are the text. -/
theorem intercalate_pieces (separator : Char) (cs : List Char) :
    [separator].intercalate (Text.pieces (· == separator) cs) = cs := by
  induction cs with
  | nil => rfl
  | cons c cs ih =>
    have hne := Text.pieces_ne_nil (· == separator) cs
    obtain ⟨part, parts, hparts⟩ := List.exists_cons_of_ne_nil hne
    rw [hparts] at ih
    rw [Text.pieces, hparts]
    split
    case isTrue hc =>
      rw [List.intercalate_cons_cons, ih, beq_iff_eq.mp hc]
      rfl
    case isFalse =>
      cases parts with
      | nil => simpa using ih
      | cons next parts =>
        rw [List.intercalate_cons_cons] at ih ⊢
        rw [← ih]
        rfl

theorem intercalate_concat {α : Type} (separator : List α) {parts : List (List α)}
    (hne : parts ≠ []) (last : List α) :
    separator.intercalate (parts ++ [last]) = separator.intercalate parts ++ separator ++ last := by
  induction parts with
  | nil => exact absurd rfl hne
  | cons part parts ih =>
    cases parts with
    | nil => simp [List.intercalate_cons_cons]
    | cons next parts =>
      have htail := ih (List.cons_ne_nil _ _)
      simp only [List.cons_append, List.intercalate_cons_cons, List.append_assoc] at htail ⊢
      rw [htail]

/-- A name that was cut at its last dot is put together again. -/
theorem ResolvedName.fullName_ofFullName (name : String) :
    (ResolvedName.ofFullName name).fullName = name := by
  have hwhole := intercalate_pieces '.' name.toList
  have hne := Text.pieces_ne_nil (· == '.') name.toList
  unfold ResolvedName.ofFullName EntityName.splitNamespace
  dsimp only
  generalize Text.pieces (· == '.') name.toList = parts at hwhole hne
  split
  case h_1 => rfl
  case h_2 hcut =>
    have hlast : parts.dropLast ++ [(parts.getLast?).getD []] = parts := by
      rw [List.getLast?_eq_some_getLast hne]
      exact List.dropLast_append_getLast hne
    rw [← hlast, intercalate_concat _ hcut] at hwhole
    apply String.toList_injective
    simp [ResolvedName.fullName, ← hwhole]

/-! ## Names of a table -/

namespace SymbolTable

variable {table : SymbolTable} {policy : NamingPolicy} {names : Names}

/-- Names can be resolved in whatever order they were asked for. -/
theorem exists_resolve_of_perm {table' : SymbolTable} (hperm : table.origins.Perm table'.origins)
    (h : table.resolve policy = .ok names) : ∃ names', table'.resolve policy = .ok names' := by
  have hclaims := (hperm.filterMap (·.claim? policy)).map (·.1)
  have hnone : firstShared? (claimants (table.origins.filterMap (·.claim? policy))) = none := by
    unfold resolve at h
    split at h
    · exact nomatch h
    · assumption
  have hnone' : firstShared? (claimants (table'.origins.filterMap (·.claim? policy))) = none :=
    firstShared?_claimants_eq_none.mpr
      (hclaims.nodup_iff.mp (firstShared?_claimants_eq_none.mp hnone))
  unfold resolve
  rw [hnone']
  exact ⟨_, rfl⟩

/-- Symbols differ if their origins do. -/
theorem ne_of_find? {origin origin' : Origin} {s s' : Symbol} (h : table.find? origin = some s)
    (h' : table.find? origin' = some s') (hne : origin ≠ origin') : s ≠ s' := by
  rintro rfl
  exact hne (find?_injective h h')

variable (h : table.resolve policy = .ok names)

include h

theorem eq_of_resolve :
    names = ⟨table.origins,
      table.origins.map fun origin => .ofFullName (origin.fullName policy)⟩ := by
  unfold resolve at h
  split at h
  · exact nomatch h
  · exact (Except.ok.inj h).symm

theorem origin?_of_resolve (s : Symbol) : names.origin? s = table.origin? s := by
  rw [eq_of_resolve h]
  rfl

/-- Every symbol that was issued has a name. -/
theorem isSome_fullName?_of_resolve {s : Symbol} {origin : Origin}
    (hs : table.origin? s = some origin) : (names.fullName? s).isSome = true := by
  unfold origin? at hs
  simp [eq_of_resolve h, Names.fullName?, Names.name?, hs]

/-- A symbol is named after its origin. -/
theorem name?_of_resolve (s : Symbol) :
    names.name? s = (table.origin? s).map fun origin => .ofFullName (origin.fullName policy) := by
  rw [eq_of_resolve h, Names.name?, List.getElem?_map]
  rfl

end SymbolTable

namespace Names

variable {names : Names} {symbols : List Symbol}

theorem conflict?_eq_none_iff : names.conflict? symbols = none ↔
    ∀ s ∈ symbols, ∀ s' ∈ symbols, ∀ name, names.fullName? s = some name →
      names.fullName? s' = some name → s = s' := by
  rw [conflict?, Option.map_eq_none_iff, (orderedBy_owners names symbols).firstShared?_eq_none_iff]
  simp only [← Nat.not_lt, one_lt_length_filter_iff (nodup_eraseDups symbols), List.mem_eraseDups]
  constructor
  · intro hall s hs s' hs' name hname hname'
    by_contra hne
    exact hall name ⟨s, s', hne, hs, hs', hname, hname'⟩
  · rintro hall name ⟨s, s', hne, hs, hs', hname, hname'⟩
    exact hne (hall s hs s' hs' name hname hname')

theorem eq_of_conflict?_eq_none (h : names.conflict? symbols = none) {s s' : Symbol}
    (hs : s ∈ symbols) (hs' : s' ∈ symbols) {name : String} (hname : names.fullName? s = some name)
    (hname' : names.fullName? s' = some name) : s = s' :=
  conflict?_eq_none_iff.mp h s hs s' hs' name hname hname'

/-- Where no two symbols share a name, names are repeated only if symbols are. -/
theorem nodup_map_fullName?_iff (h : names.conflict? symbols = none)
    (hissued : ∀ s ∈ symbols, (names.fullName? s).isSome = true) :
    (symbols.map names.fullName?).Nodup ↔ symbols.Nodup := by
  refine ⟨List.Nodup.of_map _, fun hnodup => hnodup.map_on fun s hs s' hs' heq => ?_⟩
  obtain ⟨name, hname⟩ := Option.isSome_iff_exists.mp (hissued s hs)
  exact eq_of_conflict?_eq_none h hs hs' hname (heq ▸ hname)

end Names

end Typings
