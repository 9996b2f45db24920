import Mathlib.Data.List.Induction
import Typings.Proofs.Distinct
import Typings.Service.Groups

/-!
# The groups that endpoints are put into

Endpoints are put into groups one after the other. The positions of the groups are kept in a map
while the list of groups grows. At every point the list has one group for each key so far, in the
order in which the keys occurred, with all endpoints of the key in their order, and the map has the
position of every key.

## Main definitions

* `Grouping.Holds`: what is true of the groups of the endpoints so far.

## Main results

* `Grouping.Holds.add`: one more endpoint is put into its group.
* `Application.groups_eq`: the groups of an application.
-/

namespace Typings

namespace Grouping

variable {keyOf : Endpoint → GroupKey} {endpoints : List Endpoint} {grouping : Grouping}

/-- Whether the groups are those of the given endpoints, and the positions those of the groups. -/
structure Holds (keyOf : Endpoint → GroupKey) (endpoints : List Endpoint) (grouping : Grouping) :
    Prop where
  groups : grouping.groups = (endpoints.map keyOf).eraseDups.map fun key =>
    { key, endpoints := endpoints.filter (keyOf · == key) }
  positions (key : GroupKey) (position : Nat) : grouping.positions.lookup key = some position ↔
    (endpoints.map keyOf).eraseDups[position]? = some key

variable {endpoint : Endpoint}

theorem filter_concat_of_ne {key : GroupKey} (h : keyOf endpoint ≠ key) :
    (endpoints ++ [endpoint]).filter (keyOf · == key) = endpoints.filter (keyOf · == key) := by
  simp [h]

/-- An endpoint with a known key is put into the group at the position of the key. -/
theorem Holds.add_known (h : Holds keyOf endpoints grouping) {position : Nat}
    (hfound : grouping.positions.lookup (keyOf endpoint) = some position) :
    Holds keyOf (endpoints ++ [endpoint]) (grouping.add (keyOf endpoint) endpoint) := by
  have hposition := (h.positions _ _).mp hfound
  have hknown : keyOf endpoint ∈ endpoints.map keyOf :=
    List.mem_eraseDups.mp (List.mem_of_getElem? hposition)
  have hkeys : ((endpoints ++ [endpoint]).map keyOf).eraseDups =
      (endpoints.map keyOf).eraseDups := by
    rw [List.map_append, List.map_singleton, eraseDups_concat, if_pos hknown]
  have hadd : grouping.add (keyOf endpoint) endpoint = { grouping with
      groups := grouping.groups.modify position fun group =>
        { group with endpoints := group.endpoints ++ [endpoint] } } := by
    rw [Grouping.add, hfound]
  rw [hadd]
  refine ⟨?_, fun key position => by rw [hkeys]; exact h.positions key position⟩
  rw [hkeys, h.groups]
  refine List.ext_getElem? fun i => ?_
  rw [List.getElem?_modify, List.getElem?_map, List.getElem?_map]
  cases hkey : (endpoints.map keyOf).eraseDups[i]? with
  | none => rfl
  | some key =>
    by_cases hi : position = i
    · obtain rfl : keyOf endpoint = key := Option.some.inj (hposition.symm.trans (hi ▸ hkey))
      simp [hi]
    · have hne : keyOf endpoint ≠ key := by
        rintro rfl
        obtain ⟨hlt, heq⟩ := List.getElem?_eq_some_iff.mp hposition
        obtain ⟨hlt', heq'⟩ := List.getElem?_eq_some_iff.mp hkey
        exact hi ((List.getElem_inj (nodup_eraseDups _)).mp (heq.trans heq'.symm))
      simp [hi, hne]

/-- An endpoint with a new key gets a group of its own at the end. -/
theorem Holds.add_new (h : Holds keyOf endpoints grouping)
    (hnew : grouping.positions.lookup (keyOf endpoint) = none) :
    Holds keyOf (endpoints ++ [endpoint]) (grouping.add (keyOf endpoint) endpoint) := by
  have hkey : keyOf endpoint ∉ (endpoints.map keyOf).eraseDups := by
    intro hmem
    obtain ⟨position, hposition⟩ := List.mem_iff_getElem?.mp hmem
    exact Option.some_ne_none _ (((h.positions _ _).mpr hposition).symm.trans hnew)
  have hnone : ∀ e ∈ endpoints, keyOf e ≠ keyOf endpoint := fun e he heq =>
    hkey (List.mem_eraseDups.mpr (heq ▸ List.mem_map_of_mem he))
  have hkeys : ((endpoints ++ [endpoint]).map keyOf).eraseDups =
      (endpoints.map keyOf).eraseDups ++ [keyOf endpoint] := by
    rw [List.map_append, List.map_singleton, eraseDups_concat,
      if_neg (mt List.mem_eraseDups.mpr hkey)]
  have hlength : grouping.groups.length = (endpoints.map keyOf).eraseDups.length := by
    rw [h.groups, List.length_map]
  rw [Grouping.add, hnew]
  refine ⟨?_, fun key position => ?_⟩
  · have hone : (endpoints ++ [endpoint]).filter (keyOf · == keyOf endpoint) = [endpoint] := by
      rw [List.filter_append, List.filter_eq_nil_iff.mpr (by simpa using hnone)]
      simp
    rw [hkeys, List.map_append, List.map_singleton, hone, h.groups]
    refine congrArg (· ++ _) (List.map_congr_left fun key hmem => ?_)
    have hother : keyOf endpoint ≠ key := by
      rintro rfl
      exact hkey hmem
    rw [filter_concat_of_ne hother]
  · have hold := h.positions key position
    rw [hkeys, hlength, List.lookup_cons]
    by_cases hsame : key = keyOf endpoint
    · have habsent : (endpoints.map keyOf).eraseDups[position]? ≠ some key :=
        fun hget => hkey (hsame ▸ List.mem_of_getElem? hget)
      grind
    · rw [beq_eq_false_iff_ne.mpr hsame]
      grind

/-- One more endpoint is put into its group. -/
theorem Holds.add (h : Holds keyOf endpoints grouping) (endpoint : Endpoint) :
    Holds keyOf (endpoints ++ [endpoint]) (grouping.add (keyOf endpoint) endpoint) := by
  cases hfound : grouping.positions.lookup (keyOf endpoint) with
  | some position => exact h.add_known hfound
  | none => exact h.add_new hfound

theorem holds_foldl (keyOf : Endpoint → GroupKey) (endpoints : List Endpoint) :
    Holds keyOf endpoints
      (endpoints.foldl (fun grouped endpoint => grouped.add (keyOf endpoint) endpoint) {}) := by
  induction endpoints using List.reverseRecOn with
  | nil => exact ⟨rfl, by simp⟩
  | append_singleton endpoints endpoint ih =>
    rw [List.foldl_concat]
    exact ih.add endpoint

end Grouping

/-- There is one group for each key, in the order in which the keys occur. -/
theorem Application.groups_eq (application : Application) (grouping : RestGrouping) :
    application.groups grouping =
      (application.methods.map (application.groupKey grouping)).eraseDups.map fun key =>
        { key
          endpoints := (application.methods.filter
            (application.groupKey grouping · == key)).mergeSort fun a b => a.path ≤ b.path } := by
  unfold groups
  dsimp only
  rw [(Grouping.holds_foldl (application.groupKey grouping) application.methods).groups,
    List.map_map]
  rfl

end Typings
