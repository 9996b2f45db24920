import Mathlib.Data.List.Nodup
import Mathlib.Data.List.Perm.Basic
import Typings.Model.Order
import Typings.Proofs.Model.Within

/-!
# Ordered models

Putting a model in order moves declarations and properties. It neither loses nor repeats any.

## Main definitions

* `OrderedModel.data`, `OrderedModel.aliases`, `OrderedModel.enums`: the declarations of a kind.
* `SortMode.arrange`: what ordering does to a declaration.
* `Model.declaredSymbols`: the symbols that a model declares.

## Main results

* `perm_parentFirst`: every position of data comes up once.
* `Model.perm_data_order`, `Model.perm_aliases_order`, `Model.perm_enums_order`,
  `Model.perm_symbols_order`: the declarations of an ordered model are those of the model.
-/

namespace Typings

/-! ## Positions -/

section Positions

variable {data : List DataDeclaration} {visited : List Nat} {position : Nat}

theorem parentPosition?_lt {parent : Nat} (h : parentPosition? data position = some parent) :
    parent < data.length := by
  obtain ⟨symbol, -, hfound⟩ := Option.bind_eq_some_iff.mp h
  exact (List.findIdx?_eq_some_iff_getElem.mp hfound).1

theorem lineage_of_mem (h : position ∈ visited) : lineage data visited position = [] := by
  rw [lineage, dif_pos h]

theorem lineage_of_none (hnew : position ∉ visited) (hnone : parentPosition? data position = none) :
    lineage data visited position = [position] := by
  rw [lineage, dif_neg hnew]
  split
  · rfl
  case h_2 parent hfound => cases hnone.symm.trans hfound

theorem lineage_of_some {parent : Nat} (hnew : position ∉ visited)
    (hsome : parentPosition? data position = some parent) :
    lineage data visited position = position :: lineage data (position :: visited) parent := by
  rw [lineage, dif_neg hnew]
  split
  case h_1 hnone => cases hnone.symm.trans hsome
  case h_2 parent' hfound =>
    obtain rfl := Option.some.inj (hfound.symm.trans hsome)
    rfl

/-- A lineage has each position once, and only positions that were not visited. -/
theorem nodup_lineage (data : List DataDeclaration) (visited : List Nat) (position : Nat) :
    (lineage data visited position).Nodup ∧ ∀ i ∈ lineage data visited position, i ∉ visited := by
  induction visited, position using lineage.induct data with
  | case1 visited position hagain =>
    rw [lineage_of_mem hagain]
    simp
  | case2 visited position hnew hnone =>
    rw [lineage_of_none hnew hnone]
    simpa using hnew
  | case3 visited position hnew parent hfound ih =>
    obtain ⟨hnodup, hfresh⟩ := ih
    rw [lineage_of_some hnew hfound]
    refine ⟨List.nodup_cons.mpr ⟨fun hmem => hfresh position hmem List.mem_cons_self, hnodup⟩, ?_⟩
    rw [List.forall_mem_cons]
    exact ⟨hnew, fun i hi hvisited => hfresh i hi (List.mem_cons_of_mem _ hvisited)⟩

/-- A lineage has positions of the data only. -/
theorem lt_of_mem_lineage (visited : List Nat) (position : Nat)
    (hposition : position < data.length) :
    ∀ i ∈ lineage data visited position, i < data.length := by
  induction visited, position using lineage.induct data with
  | case1 visited position hagain =>
    rw [lineage_of_mem hagain]
    simp
  | case2 visited position hnew hnone =>
    rw [lineage_of_none hnew hnone]
    simpa using hposition
  | case3 visited position hnew parent hfound ih =>
    rw [lineage_of_some hnew hfound, List.forall_mem_cons]
    exact ⟨hposition, ih (parentPosition?_lt hfound)⟩

theorem mem_lineage (h : position ∉ visited) : position ∈ lineage data visited position := by
  cases hparent : parentPosition? data position with
  | none => rw [lineage_of_none h hparent]; exact List.mem_cons_self
  | some parent => rw [lineage_of_some h hparent]; exact List.mem_cons_self

/-- Following the lineages of further positions keeps what is ordered, each position once, and adds
these positions. -/
theorem foldl_lineage (data : List DataDeclaration) (positions ordered : List Nat)
    (hpositions : ∀ i ∈ positions, i < data.length) (hnodup : ordered.Nodup)
    (hlt : ∀ i ∈ ordered, i < data.length) :
    let result := positions.foldl
      (fun ordered position => ordered ++ (lineage data ordered position).reverse) ordered
    result.Nodup ∧ (∀ i ∈ result, i < data.length) ∧ ordered ⊆ result ∧ positions ⊆ result := by
  induction positions generalizing ordered with
  | nil => exact ⟨hnodup, hlt, List.Subset.refl _, List.nil_subset _⟩
  | cons position rest ih =>
    obtain ⟨hposition, hrest⟩ := List.forall_mem_cons.mp hpositions
    obtain ⟨hlineage, hfresh⟩ := nodup_lineage data ordered position
    have hnodup' : (ordered ++ (lineage data ordered position).reverse).Nodup := by
      refine List.nodup_append.mpr ⟨hnodup, List.nodup_reverse.mpr hlineage,
        fun i hi j hj heq => ?_⟩
      exact hfresh j (List.mem_reverse.mp hj) (heq ▸ hi)
    have hlt' : ∀ i ∈ ordered ++ (lineage data ordered position).reverse, i < data.length := by
      rw [List.forall_mem_append]
      exact ⟨hlt,
        fun i hi => lt_of_mem_lineage ordered position hposition i (List.mem_reverse.mp hi)⟩
    have hmem : position ∈ ordered ++ (lineage data ordered position).reverse := by
      by_cases hold : position ∈ ordered
      · exact List.mem_append_left _ hold
      · exact List.mem_append_right _ (List.mem_reverse.mpr (mem_lineage hold))
    obtain ⟨hnodup'', hlt'', hsub, hsub'⟩ := ih _ hrest hnodup' hlt'
    rw [List.foldl_cons]
    refine ⟨hnodup'', hlt'', List.Subset.trans (List.subset_append_left _ _) hsub, ?_⟩
    exact List.cons_subset.mpr ⟨hsub hmem, hsub'⟩

/-- Every position of data comes up once. -/
theorem perm_parentFirst (data : List DataDeclaration) :
    (parentFirst data).Perm (List.range data.length) := by
  obtain ⟨hnodup, hlt, -, hsub⟩ := foldl_lineage data (List.range data.length) []
    (by simp) (by simp) (by simp)
  refine (List.perm_ext_iff_of_nodup hnodup List.nodup_range).mpr fun i =>
    ⟨fun hi => ?_, fun hi => ?_⟩
  · exact List.mem_range.mpr (hlt i hi)
  · exact hsub hi

end Positions

theorem filterMap_getElem?_range {α : Type} (l : List α) :
    (List.range l.length).filterMap (l[·]?) = l := by
  induction l with
  | nil => rfl
  | cons a l ih => simpa [List.range_succ_eq_map, List.filterMap_map, Function.comp_def] using ih

/-! ## The order by category and name -/

namespace Names

variable {names : Names}

theorem le_trans (a b c : Symbol) (hab : names.le a b = true) (hbc : names.le b c = true) :
    names.le a c = true := by
  unfold le at *
  cases ha : names.fullName? a <;> cases hb : names.fullName? b <;> cases hc : names.fullName? c <;>
    simp_all [nameLe]
  exact String.le_trans hab hbc

theorem le_total (a b : Symbol) : (names.le a b || names.le b a) = true := by
  unfold le
  cases names.fullName? a <;> cases names.fullName? b <;> simp [nameLe]
  exact String.le_total _ _

theorem fullName?_eq_of_le {a b : Symbol} (hab : names.le a b = true) (hba : names.le b a = true) :
    names.fullName? a = names.fullName? b := by
  unfold le at *
  cases ha : names.fullName? a <;> cases hb : names.fullName? b <;> simp_all [nameLe]
  exact String.le_antisymm hab hba

end Names

namespace DataDeclaration

variable {names : Names}

theorem le_iff {a b : DataDeclaration} : le names a b = true ↔
    a.category.rank < b.category.rank ∨
      a.category.rank = b.category.rank ∧ names.le a.symbol b.symbol = true := by
  simp [le]

theorem le_trans (a b c : DataDeclaration) (hab : le names a b = true) (hbc : le names b c = true) :
    le names a c = true := by
  rw [le_iff] at *
  rcases hab with hab | ⟨hab, hnames⟩ <;> rcases hbc with hbc | ⟨hbc, hnames'⟩
  · exact .inl (Nat.lt_trans hab hbc)
  · exact .inl (hbc ▸ hab)
  · exact .inl (hab ▸ hbc)
  · exact .inr ⟨hab.trans hbc, Names.le_trans _ _ _ hnames hnames'⟩

theorem le_total (a b : DataDeclaration) : (le names a b || le names b a) = true := by
  have hnames := names.le_total a.symbol b.symbol
  rw [Bool.or_eq_true] at *
  rw [le_iff, le_iff]
  rcases Nat.lt_trichotomy a.category.rank b.category.rank with hlt | heq | hlt
  · exact .inl (.inl hlt)
  · exact hnames.imp (fun hab => Or.inr ⟨heq, hab⟩) fun hba => Or.inr ⟨heq.symm, hba⟩
  · exact .inr (.inl hlt)

theorem fullName?_eq_of_le {a b : DataDeclaration} (hab : le names a b = true)
    (hba : le names b a = true) : names.fullName? a.symbol = names.fullName? b.symbol := by
  rw [le_iff] at hab hba
  rcases hab with hab | ⟨_, hab⟩ <;> rcases hba with hba | ⟨_, hba⟩
  · omega
  · omega
  · omega
  · exact Names.fullName?_eq_of_le hab hba

end DataDeclaration

/-! ## Declarations -/

/-- The interface or class that a declaration is. -/
def Declaration.data? : Declaration → Option DataDeclaration
  | ofData d => some d
  | _ => none

def Declaration.alias? : Declaration → Option AliasDeclaration
  | ofAlias a => some a
  | _ => none

def Declaration.enum? : Declaration → Option EnumDeclaration
  | ofEnum e => some e
  | _ => none

namespace OrderedModel

/-- The interfaces and classes, in order. -/
def data (model : OrderedModel) : List DataDeclaration :=
  model.declarations.filterMap (·.data?)

/-- The aliases, in order. -/
def aliases (model : OrderedModel) : List AliasDeclaration :=
  model.declarations.filterMap (·.alias?)

/-- The enums, in order. -/
def enums (model : OrderedModel) : List EnumDeclaration :=
  model.declarations.filterMap (·.enum?)

end OrderedModel

/-- What ordering does to a declaration: its properties are sorted, unless nothing is. -/
def SortMode.arrange (mode : SortMode) (d : DataDeclaration) : DataDeclaration :=
  if mode = .unsorted then d else d.sortProperties

namespace SortMode

variable (mode : SortMode) (d : DataDeclaration)

@[simp] theorem frame_arrange : (mode.arrange d).frame = d.frame := by
  unfold arrange
  split <;> rfl

@[simp] theorem symbol_arrange : (mode.arrange d).symbol = d.symbol := by
  unfold arrange
  split <;> rfl

@[simp] theorem methods_arrange : (mode.arrange d).methods = d.methods := by
  unfold arrange
  split <;> rfl

@[simp] theorem ctor_arrange : (mode.arrange d).ctor = d.ctor := by
  unfold arrange
  split <;> rfl

@[simp] theorem mem_properties_arrange {p : Property} :
    p ∈ (mode.arrange d).properties ↔ p ∈ d.properties := by
  unfold arrange
  split
  · exact Iff.rfl
  · exact List.mem_mergeSort

@[simp] theorem typeParameters_arrange : (mode.arrange d).typeParameters = d.typeParameters := by
  unfold arrange
  split <;> rfl

@[simp] theorem supertypes_arrange : (mode.arrange d).supertypes = d.supertypes := by
  rw [← DataDeclaration.frame_supertypes, frame_arrange, DataDeclaration.frame_supertypes]

@[simp] theorem mem_types_arrange {t : TypeExpr} : t ∈ (mode.arrange d).types ↔ t ∈ d.types := by
  simp [DataDeclaration.mem_types]

@[simp] theorem codeNodes_arrange : (mode.arrange d).codeNodes = d.codeNodes := by
  simp [DataDeclaration.codeNodes]

end SortMode

namespace Model

variable (names : Names) (mode : SortMode) (model : Model)

theorem perm_data_sorted : (model.sorted names mode).data.Perm (model.data.map mode.arrange) := by
  cases mode with
  | unsorted => exact .of_eq (List.map_id' _).symm
  | propertiesOnly => exact .refl _
  | full => exact List.mergeSort_perm _ _

theorem perm_aliases_sorted : (model.sorted names mode).aliases.Perm model.aliases := by
  cases mode with
  | full => exact List.mergeSort_perm _ _
  | unsorted | propertiesOnly => exact .refl _

theorem perm_enums_sorted : (model.sorted names mode).enums.Perm model.enums := by
  cases mode with
  | full => exact List.mergeSort_perm _ _
  | unsorted | propertiesOnly => exact .refl _

theorem perm_filterMap_parentFirst (data : List DataDeclaration) :
    ((parentFirst data).filterMap (data[·]?)).Perm data := by
  have hperm := (perm_parentFirst data).filterMap (data[·]?)
  rwa [filterMap_getElem?_range] at hperm

@[simp] theorem data_order : (model.order names mode).data =
    (parentFirst (model.sorted names mode).data).filterMap
    ((model.sorted names mode).data[·]?) := by
  simp [OrderedModel.data, order, List.filterMap_map, Declaration.data?]

/-- The interfaces and classes of an ordered model are those of the model. -/
theorem perm_data_order : (model.order names mode).data.Perm (model.data.map mode.arrange) := by
  rw [data_order]
  exact (perm_filterMap_parentFirst _).trans (model.perm_data_sorted names mode)

theorem mem_data_order {d : DataDeclaration} :
    d ∈ (model.order names mode).data ↔ ∃ d' ∈ model.data, mode.arrange d' = d := by
  rw [(model.perm_data_order names mode).mem_iff, List.mem_map]

/-- The aliases of an ordered model are those of the model. -/
theorem perm_aliases_order : (model.order names mode).aliases.Perm model.aliases := by
  have h : (model.order names mode).aliases = (model.sorted names mode).aliases := by
    simp [OrderedModel.aliases, order, List.filterMap_map, Declaration.alias?]
  rw [h]
  exact model.perm_aliases_sorted names mode

/-- The enums of an ordered model are those of the model. -/
theorem perm_enums_order : (model.order names mode).enums.Perm model.enums := by
  have h : (model.order names mode).enums = (model.sorted names mode).enums := by
    simp [OrderedModel.enums, order, List.filterMap_map, Declaration.enum?]
  rw [h]
  exact model.perm_enums_sorted names mode

/-- The symbols of aliases and enums. -/
def aliasSymbols (model : Model) : List Symbol :=
  model.aliases.map (·.symbol) ++ model.enums.map (·.symbol)

theorem fresh_of_nodup (hnodup : model.aliasSymbols.Nodup) :
    ∀ a ∈ model.aliases, ∀ e ∈ model.enums, a.symbol ≠ e.symbol := by
  intro a ha e he
  exact (List.nodup_append.mp hnodup).2.2 _ (List.mem_map_of_mem ha) _ (List.mem_map_of_mem he)

def declaredSymbols (model : Model) : List Symbol :=
  model.data.map (·.symbol) ++ model.aliasSymbols

theorem mem_declaredSymbols {s : Symbol} :
    s ∈ model.declaredSymbols ↔ (∃ d ∈ model.data, d.symbol = s) ∨ s ∈ model.aliasSymbols := by
  rw [declaredSymbols, List.mem_append, List.mem_map]

/-- The same symbols are declared, each as often. -/
theorem perm_symbols_order :
    ((model.order names mode).declarations.map (·.symbol)).Perm model.declaredSymbols := by
  have hdata : ((model.order names mode).data.map (·.symbol)).Perm (model.data.map (·.symbol)) := by
    refine ((model.perm_data_order names mode).map (·.symbol)).trans (.of_eq ?_)
    simp
  have haliases := (model.perm_aliases_sorted names mode).map (·.symbol)
  have henums := (model.perm_enums_sorted names mode).map (·.symbol)
  rw [data_order] at hdata
  simp only [order, declaredSymbols, aliasSymbols, List.map_append, List.map_map, List.append_assoc]
  exact hdata.append (haliases.append henums)

@[simp] theorem helpers_order : (model.order names mode).helpers = model.helpers := by
  cases mode <;> rfl

end Model

end Typings
