import Typings.Proofs.Simulation.Models
import Typings.Proofs.StableSort

/-!
# The order of two runs

Where everything is sorted, models that are alike are put in the same order, if no two declarations
that may stand in a different order share a name.

## Main results

* `parentFirst_rename`: the order by parents depends on the symbols only through which of them are
  equal.
* `Model.Alike.order`: models that are alike are put in the same order.
-/

namespace Typings

/-! ## Renaming -/

section Rename

variable {f : Symbol → Symbol}

theorem DataDeclaration.sortProperties_rename (d : DataDeclaration) :
    (d.rename f).sortProperties = d.sortProperties.rename f := by
  have hproperties : (d.properties.map (Property.rename f)).mergeSort (fun p q => p.name ≤ q.name) =
      (d.properties.mergeSort fun p q => p.name ≤ q.name).map (Property.rename f) :=
    (List.map_mergeSort (f := Property.rename f) fun _ _ _ _ => rfl).symm
  rw [sortProperties, rename_properties, hproperties]
  rfl

section Names

variable {names names' : Names} (hnames : ∀ s, names'.name? (f s) = names.name? s)

include hnames

theorem Names.le_rename (a b : Symbol) : names'.le (f a) (f b) = names.le a b := by
  rw [le, fullName?_rename hnames, fullName?_rename hnames, le]

theorem DataDeclaration.le_rename (a b : DataDeclaration) :
    DataDeclaration.le names' (a.rename f) (b.rename f) = DataDeclaration.le names a b := by
  rw [Bool.eq_iff_iff, le_iff, le_iff, rename_category, rename_category, rename_symbol,
    rename_symbol, Names.le_rename hnames]

end Names

variable (hf : f.Injective) (data : List DataDeclaration)

include hf

theorem parentPosition?_rename (position : Nat) :
    parentPosition? (data.map (DataDeclaration.rename f)) position =
      parentPosition? data position := by
  have hindex : ∀ s : Symbol, (data.map (DataDeclaration.rename f)).findIdx? (·.symbol == f s) =
      data.findIdx? (·.symbol == s) := by
    intro s
    rw [List.findIdx?_map]
    refine congrArg (List.findIdx? · data) (funext fun d => ?_)
    rw [Function.comp_apply, DataDeclaration.rename_symbol, Bool.eq_iff_iff, beq_iff_eq, beq_iff_eq,
      hf.eq_iff]
  unfold parentPosition?
  rw [List.getElem?_map]
  cases data[position]? with
  | none => rfl
  | some d =>
    simp only [Option.map_some, Option.bind_some, DataDeclaration.rename_parent]
    cases d.parent with
    | none => rfl
    | some t =>
      simp only [Option.map_some, Option.bind_some, TypeExpr.referenced?_rename]
      cases t.referenced? with
      | none => rfl
      | some s => exact hindex s

theorem lineage_rename (visited : List Nat) (position : Nat) :
    lineage (data.map (DataDeclaration.rename f)) visited position =
      lineage data visited position := by
  induction visited, position using lineage.induct data with
  | case1 visited position hagain => rw [lineage_of_mem hagain, lineage_of_mem hagain]
  | case2 visited position hnew hnone =>
    have hnone' := (parentPosition?_rename hf data position).trans hnone
    rw [lineage_of_none hnew hnone, lineage_of_none hnew hnone']
  | case3 visited position hnew parent hsome ih =>
    have hsome' := (parentPosition?_rename hf data position).trans hsome
    rw [lineage_of_some hnew hsome, lineage_of_some hnew hsome', ih]

theorem parentFirst_rename :
    parentFirst (data.map (DataDeclaration.rename f)) = parentFirst data := by
  simp only [parentFirst, List.length_map, lineage_rename hf]

end Rename

/-! ## Models that are alike -/

namespace Model.Alike

variable {c : Correspondence} {added : List DataDeclaration} {model model' : Model}
  (h : Alike c added model model') {names names' : Names}
  (hnames : ∀ s, names'.name? (c.symbols s) = names.name? s)
  (hdistinct : ∀ s ∈ model.declaredSymbols, ∀ s' ∈ model.declaredSymbols,
    names.fullName? s = names.fullName? s' → s = s')

include h hnames hdistinct

theorem data_sorted : (model'.sorted names' .full).data =
    (model.sorted names .full).data.map (DataDeclaration.rename c.symbols) := by
  obtain ⟨own, own', hdata, hdata', hperm, hown⟩ := h.data
  have hsort : ∀ ds : List DataDeclaration,
      (ds.map (DataDeclaration.rename c.symbols)).map (·.sortProperties) =
        (ds.map (·.sortProperties)).map (DataDeclaration.rename c.symbols) := by
    intro ds
    rw [List.map_map, List.map_map]
    exact List.map_congr_left fun d _ => d.sortProperties_rename
  have hsorted := hperm.map (·.sortProperties)
  rw [hsort] at hsorted
  show (model'.data.map (·.sortProperties)).mergeSort (DataDeclaration.le names') =
    ((model.data.map (·.sortProperties)).mergeSort (DataDeclaration.le names)).map _
  rw [hdata', List.map_append, hsort,
    ← mergeSort_append_perm DataDeclaration.le_trans DataDeclaration.le_total _ hsorted,
    ← List.map_append, ← List.map_append, ← hdata]
  · exact (List.map_mergeSort fun a _ b _ => (DataDeclaration.le_rename hnames a b).symm).symm
  · rw [List.map_map]
    intro a ha b hb hab hba
    obtain ⟨d, hd, rfl⟩ := List.mem_map.mp ha
    obtain ⟨d', hd', rfl⟩ := List.mem_map.mp hb
    have hmem : ∀ d ∈ own, d.symbol ∈ model.declaredSymbols := by
      intro d hd
      refine List.mem_append_left _ (List.mem_map_of_mem ?_)
      rw [hdata]
      exact List.mem_append_left _ hd
    have hname : names'.fullName? (c.symbols d.symbol) = names'.fullName? (c.symbols d'.symbol) :=
      DataDeclaration.fullName?_eq_of_le hab hba
    rw [Names.fullName?_rename hnames, Names.fullName?_rename hnames] at hname
    have hsymbol := hdistinct _ (hmem d hd) _ (hmem d' hd') hname
    rw [hown.eq_of_symbol hd hd' (Or.inl hsymbol) (Or.inl rfl)]

omit h in
/-- Declarations with different symbols are put in the same order. -/
theorem mergeSort_eq {α : Type} (symbol : α → Symbol) {r : α → α}
    (hr : ∀ a, symbol (r a) = c.symbols (symbol a)) {as as' : List α} (hperm : (as.map r).Perm as')
    (hnodup : (as.map symbol).Nodup) (hmem : as.map symbol ⊆ model.declaredSymbols) :
    as'.mergeSort (fun a b => names'.le (symbol a) (symbol b)) =
      (as.mergeSort fun a b => names.le (symbol a) (symbol b)).map r := by
  have hanti : ∀ a ∈ as.map r, ∀ b ∈ as.map r, names'.le (symbol a) (symbol b) = true →
      names'.le (symbol b) (symbol a) = true → a = b := by
    intro a ha b hb hab hba
    obtain ⟨x, hx, rfl⟩ := List.mem_map.mp ha
    obtain ⟨y, hy, rfl⟩ := List.mem_map.mp hb
    have hname := Names.fullName?_eq_of_le hab hba
    rw [hr, hr, Names.fullName?_rename hnames, Names.fullName?_rename hnames] at hname
    have hsymbol :=
      hdistinct _ (hmem (List.mem_map_of_mem hx)) _ (hmem (List.mem_map_of_mem hy)) hname
    rw [List.inj_on_of_nodup_map hnodup hx hy hsymbol]
  have hsorted : (as.map r ++ []).mergeSort (fun a b => names'.le (symbol a) (symbol b)) =
      (as' ++ []).mergeSort fun a b => names'.le (symbol a) (symbol b) := by
    refine mergeSort_append_perm ?_ ?_ [] hperm hanti
    · exact fun a b c => Names.le_trans (symbol a) (symbol b) (symbol c)
    · exact fun a b => Names.le_total (symbol a) (symbol b)
  rw [List.append_nil, List.append_nil] at hsorted
  rw [← hsorted]
  refine (List.map_mergeSort fun a _ b _ => ?_).symm
  rw [hr, hr, Names.le_rename hnames]

/-- Models that are alike are put in the same order. -/
theorem order (hnodup : model.aliasSymbols.Nodup) :
    model'.order names' .full = (model.order names .full).rename c.symbols := by
  obtain ⟨haliasNodup, henumNodup, -⟩ := List.nodup_append.mp hnodup
  have hdata := h.data_sorted hnames hdistinct
  have haliases : (model'.sorted names' .full).aliases =
      (model.sorted names .full).aliases.map (AliasDeclaration.rename c.symbols) :=
    mergeSort_eq hnames hdistinct AliasDeclaration.symbol (fun _ => rfl) h.aliases haliasNodup
      fun s hs => List.mem_append_right _ (List.mem_append_left _ hs)
  have henums : (model'.sorted names' .full).enums =
      (model.sorted names .full).enums.map (EnumDeclaration.rename c.symbols) :=
    mergeSort_eq hnames hdistinct EnumDeclaration.symbol (fun _ => rfl) h.enums henumNodup
      fun s hs => List.mem_append_right _ (List.mem_append_right _ hs)
  have hhelpers : (model'.sorted names' .full).helpers = (model.sorted names .full).helpers :=
    h.helpers
  unfold Model.order OrderedModel.rename
  simp only [hdata, haliases, henums, hhelpers, parentFirst_rename c.symbols.injective,
    List.getElem?_map, List.map_append, List.map_map, List.map_filterMap, Option.map_map]
  rfl

end Model.Alike

end Typings
