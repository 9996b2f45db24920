import Typings.Compile
import Typings.Proofs.Lookup
import Typings.Proofs.Model.Order
import Typings.Proofs.Model.Representation
import Typings.Proofs.Renaming.Model
import Typings.Proofs.Simulation.Basic

/-!
# Models of two runs

The models of two runs hold the same declarations up to renaming. The declarations of classes, the
aliases and the enums may stand in a different order. The declarations that are added for services
stand in the same order, behind those of classes: two of them may share a symbol, so that their
order matters.

## Main definitions

* `DataDeclaration.IsOf`: a declaration is made of a class and has the symbols that are issued for
  it.
* `Model.Alike`: the models of two runs.

## Main results

* `Model.Alike.mirrors`: lookups lead to renamed declarations.
* `Model.Alike.mapData`: models stay alike if all declarations change alike, and from it what each
  change between building and naming preserves.
-/

namespace Typings

/-! ## Lists of renamed entries -/

section Perm

variable {α α' β β' : Type} {r : α → α'} {s : β → β'} {as : List α} {as' : List α'}

theorem perm_map_image {g : α → β} {k : α' → β'} (h : (as.map r).Perm as')
    (hg : ∀ a ∈ as, k (r a) = s (g a)) : ((as.map g).map s).Perm (as'.map k) := by
  have himage : (as.map g).map s = (as.map r).map k := by
    rw [List.map_map, List.map_map]
    exact List.map_congr_left fun a ha => (hg a ha).symm
  rw [himage]
  exact h.map k

theorem perm_filter_image {p : α → Bool} {q : α' → Bool} (h : (as.map r).Perm as')
    (hp : ∀ a, q (r a) = p a) : ((as.filter p).map r).Perm (as'.filter q) := by
  have himage : (as.filter p).map r = (as.map r).filter q := by
    rw [List.filter_map]
    exact congrArg _ (List.filter_congr fun a _ => (hp a).symm)
  rw [himage]
  exact h.filter q

section Keys

variable {κ κ' : Type} [DecidableEq κ] [DecidableEq κ'] {f : κ → κ'} (hf : f.Injective)

include hf

theorem find?_map_key (key : α → κ) (key' : α' → κ') (hkey : ∀ a, key' (r a) = f (key a))
    (as : List α) (k : κ) : (as.map r).find? (key' · == f k) = (as.find? (key · == k)).map r := by
  have himage : ∀ a, (key' (r a) == f k) = (key a == k) := by
    intro a
    rw [hkey, Bool.eq_iff_iff, beq_iff_eq, beq_iff_eq]
    exact hf.eq_iff
  rw [List.find?_map]
  exact congrArg _ (congrArg (List.find? · as) (funext himage))

/-- The last entry with a key is the image of the last one, whatever the order, if keys are
distinct. -/
theorem find?_reverse_key (key : α → κ) (key' : α' → κ') (hkey : ∀ a, key' (r a) = f (key a))
    (hperm : (as.map r).Perm as') (hnodup : (as.map key).Nodup) (k : κ) :
    as'.reverse.find? (key' · == f k) = (as.reverse.find? (key · == k)).map r := by
  have hreverse : (as.reverse.map r).Perm as'.reverse := by
    rw [List.map_reverse]
    exact ((List.reverse_perm _).trans hperm).trans (List.reverse_perm _).symm
  have hnodup' : ((as.reverse.map r).map key').Nodup := by
    have hkeys : (as.reverse.map r).map key' = ((as.map key).map f).reverse := by
      simp [Function.comp_def, hkey]
    rw [hkeys, List.nodup_reverse]
    exact hnodup.map hf
  rw [← find?_key_perm hreverse hnodup', find?_map_key hf key key' hkey]

theorem lastOf?_map (entries : List (κ × α)) (k : κ) :
    Model.lastOf? (entries.map (Prod.map f r)) (f k) = (Model.lastOf? entries k).map r := by
  rw [Model.lastOf?, Model.lastOf?, ← List.map_reverse, lookup_eq_map_find?, lookup_eq_map_find?,
    find?_map_key hf Prod.fst Prod.fst fun _ => rfl, Option.map_map, Option.map_map]
  rfl

theorem lastOf?_perm {entries : List (κ × α)} {entries' : List (κ' × α')}
    (hperm : (entries.map (Prod.map f r)).Perm entries') (hnodup : (entries.map (·.1)).Nodup)
    (k : κ) : Model.lastOf? entries' (f k) = (Model.lastOf? entries k).map r := by
  rw [Model.lastOf?, Model.lastOf?, lookup_eq_map_find?, lookup_eq_map_find?,
    find?_reverse_key hf Prod.fst Prod.fst (fun _ => rfl) hperm hnodup, Option.map_map,
    Option.map_map]
  rfl

omit hf in
theorem lastOf?_append (entries later : List (κ × α)) (k : κ) :
    Model.lastOf? (entries ++ later) k = (Model.lastOf? later k).or (Model.lastOf? entries k) := by
  simp only [Model.lastOf?, List.reverse_append, lookup_eq_map_find?, List.find?_append,
    Option.map_or]

end Keys

end Perm

/-! ## Declarations of classes -/

/-- A declaration is made of the class with the given name: its symbol and the symbol of the alias
of its union are those of the class, and the former is issued before the model changes. -/
structure DataDeclaration.IsOf (c : Correspondence) (name : String) (d : DataDeclaration) :
    Prop where
  origin : d.origin = some name
  symbol : c.hi.find? (.entity name "") = some d.symbol
  issued : c.lo.origin? d.symbol = some (.entity name "")
  issued' : c.lo'.origin? (c.symbols d.symbol) = some (.entity name "")
  union : ∀ s, d.unionAlias = some s → c.hi.find? (.entity name "Union") = some s

theorem DataDeclaration.IsOf.congr {c : Correspondence} {name : String} {d d' : DataDeclaration}
    (h : d.IsOf c name) (horigin : d'.origin = d.origin) (hsymbol : d'.symbol = d.symbol)
    (hunion : d'.unionAlias = d.unionAlias) : d'.IsOf c name where
  origin := horigin.trans h.origin
  symbol := hsymbol ▸ h.symbol
  issued := hsymbol ▸ h.issued
  issued' := hsymbol ▸ h.issued'
  union s hs := h.union s (hunion ▸ hs)

/-- Declarations that are made of different classes. -/
structure OfClasses (c : Correspondence) (own : List DataDeclaration) : Prop where
  exists_isOf : ∀ d ∈ own, ∃ name, d.IsOf c name
  nodup : (own.map (·.origin)).Nodup

namespace OfClasses

variable {c : Correspondence} {own : List DataDeclaration} (h : OfClasses c own)
  {d d' : DataDeclaration}

include h

theorem eq_of_isOf {name : String} (hd : d ∈ own) (hd' : d' ∈ own) (hname : d.IsOf c name)
    (hname' : d'.IsOf c name) : d = d' :=
  List.inj_on_of_nodup_map h.nodup hd hd' (hname.origin.trans hname'.origin.symm)

/-- A symbol leads to at most one declaration, by its own symbol or by the alias of its union. -/
theorem eq_of_symbol {s : Symbol} (hd : d ∈ own) (hd' : d' ∈ own)
    (hs : d.symbol = s ∨ d.unionAlias = some s) (hs' : d'.symbol = s ∨ d'.unionAlias = some s) :
    d = d' := by
  obtain ⟨name, hname⟩ := h.exists_isOf d hd
  obtain ⟨name', hname'⟩ := h.exists_isOf d' hd'
  suffices heq : name = name' by
    subst heq
    exact h.eq_of_isOf hd hd' hname hname'
  rcases hs with hs | hs <;> rcases hs' with hs' | hs'
  · have hfound := SymbolTable.find?_injective (hs ▸ hname.symbol) (hs' ▸ hname'.symbol)
    exact (Origin.entity.inj hfound).1
  · have hfound := SymbolTable.find?_injective (hs ▸ hname.symbol) (hname'.union s hs')
    exact (Origin.entity.inj hfound).1
  · have hfound := SymbolTable.find?_injective (hname.union s hs) (hs' ▸ hname'.symbol)
    exact (Origin.entity.inj hfound).1
  · have hfound := SymbolTable.find?_injective (hname.union s hs) (hname'.union s hs')
    exact (Origin.entity.inj hfound).1

theorem nodup_symbols : (own.map (·.symbol)).Nodup := by
  have hown : own.Nodup := List.Nodup.of_map _ h.nodup
  exact hown.map_on fun d hd d' hd' heq => h.eq_of_symbol hd hd' (Or.inl heq) (Or.inl rfl)

theorem map {g : DataDeclaration → DataDeclaration}
    (hg : ∀ d ∈ own, ∀ name, d.IsOf c name → (g d).IsOf c name) : OfClasses c (own.map g) := by
  have horigin : (own.map g).map (·.origin) = own.map (·.origin) := by
    rw [List.map_map]
    refine List.map_congr_left fun d hd => ?_
    obtain ⟨name, hname⟩ := h.exists_isOf d hd
    exact (hg d hd name hname).origin.trans hname.origin.symm
  refine ⟨fun d' hd' => ?_, horigin ▸ h.nodup⟩
  obtain ⟨d, hd, rfl⟩ := List.mem_map.mp hd'
  obtain ⟨name, hname⟩ := h.exists_isOf d hd
  exact ⟨name, hg d hd name hname⟩

end OfClasses

/-! ## Models -/

namespace Model

/-- The models of two runs. The declarations behind those of classes are given. -/
structure Alike (c : Correspondence) (added : List DataDeclaration) (model model' : Model) :
    Prop where
  data : ∃ own own', model.data = own ++ added ∧
    model'.data = own' ++ added.map (DataDeclaration.rename c.symbols) ∧
    (own.map (DataDeclaration.rename c.symbols)).Perm own' ∧ OfClasses c own
  aliases : (model.aliases.map (AliasDeclaration.rename c.symbols)).Perm model'.aliases
  enums : (model.enums.map (EnumDeclaration.rename c.symbols)).Perm model'.enums
  helpers : model'.helpers = model.helpers
  inlinedEnums (s : Symbol) : model'.inlinedEnums.lookup (c.symbols s) =
    (model.inlinedEnums.lookup s).map (TypeExpr.rename c.symbols)

namespace Alike

variable {c : Correspondence} {added : List DataDeclaration} {model model' : Model}
  (h : Alike c added model model')

include h

theorem perm_data : (model.data.map (DataDeclaration.rename c.symbols)).Perm model'.data := by
  obtain ⟨own, own', hdata, hdata', hperm, -⟩ := h.data
  rw [hdata, hdata', List.map_append]
  exact hperm.append_right _

/-! ### Lookups -/

/-- A lookup that at most one declaration of a class answers leads to the renamed declaration. -/
theorem find?_data {p p' : DataDeclaration → Bool} (hp : ∀ d, p' (d.rename c.symbols) = p d)
    (hunique : ∀ own, OfClasses c own → ∀ d ∈ own, ∀ d' ∈ own, p d = true → p d' = true → d = d') :
    model'.data.find? p' = (model.data.find? p).map (·.rename c.symbols) := by
  obtain ⟨own, own', hdata, hdata', hperm, hown⟩ := h.data
  have himage : ∀ ds : List DataDeclaration,
      (ds.map (DataDeclaration.rename c.symbols)).find? p' =
        (ds.find? p).map (·.rename c.symbols) := by
    intro ds
    rw [List.find?_map]
    exact congrArg _ (congrArg (List.find? · ds) (funext hp))
  have hfirst : own'.find? p' = (own.find? p).map (·.rename c.symbols) := by
    rw [← himage, find?_perm_of_unique hperm]
    intro a ha b hb hpa hpb
    obtain ⟨d, hd, rfl⟩ := List.mem_map.mp ha
    obtain ⟨d', hd', rfl⟩ := List.mem_map.mp hb
    rw [hp] at hpa hpb
    rw [hunique own hown d hd d' hd' hpa hpb]
  rw [hdata, hdata', List.find?_append, List.find?_append, hfirst, himage, Option.map_or]

/-- Lookups lead to renamed declarations. -/
theorem mirrors : Mirrors c.symbols model model' where
  injective := c.symbols.injective
  findData? s := by
    refine h.find?_data (fun d => ?_) fun own hown d hd d' hd' hs hs' => ?_
    · rw [Bool.eq_iff_iff, beq_iff_eq, beq_iff_eq, DataDeclaration.rename_symbol,
        c.symbols.injective.eq_iff]
    · exact hown.eq_of_symbol hd hd' (Or.inl (beq_iff_eq.mp hs)) (Or.inl (beq_iff_eq.mp hs'))
  findOrigin? entity := by
    refine h.find?_data (fun d => rfl) fun own hown d hd d' hd' hs hs' => ?_
    exact List.inj_on_of_nodup_map hown.nodup hd hd'
      ((beq_iff_eq.mp hs).trans (beq_iff_eq.mp hs').symm)
  revivable? s := by
    have hleads : ∀ d : DataDeclaration, ((d.rename c.symbols).symbol == c.symbols s ||
        (d.rename c.symbols).unionAlias == some (c.symbols s)) =
        (d.symbol == s || d.unionAlias == some s) := by
      intro d
      have hunion : d.unionAlias.map c.symbols = some (c.symbols s) ↔ d.unionAlias = some s :=
        (Option.map_injective c.symbols.injective).eq_iff (b := some s)
      rw [Bool.eq_iff_iff, Bool.or_eq_true, Bool.or_eq_true, beq_iff_eq, beq_iff_eq, beq_iff_eq,
        beq_iff_eq, DataDeclaration.rename_symbol, DataDeclaration.rename_unionAlias, hunion,
        c.symbols.injective.eq_iff]
    rw [revivable?, revivable?, h.find?_data hleads]
    · cases model.data.find? fun d => d.symbol == s || d.unionAlias == some s with
      | none => rfl
      | some d =>
        cases hclass : d.isClass <;> simp [Option.filter_some, hclass]
    · intro own hown d hd d' hd' hs hs'
      rw [Bool.or_eq_true, beq_iff_eq, beq_iff_eq] at hs hs'
      exact hown.eq_of_symbol hd hd' hs hs'

theorem isSome_findAlias? (s : Symbol) :
    (model'.findAlias? (c.symbols s)).isSome = (model.findAlias? s).isSome := by
  rw [Bool.eq_iff_iff, Model.isSome_findAlias?, Model.isSome_findAlias?,
    ← (h.aliases.map (·.symbol)).mem_iff, List.map_map]
  constructor
  · intro hmem
    obtain ⟨a, ha, heq⟩ := List.mem_map.mp hmem
    exact List.mem_map.mpr ⟨a, ha, c.symbols.injective heq⟩
  · intro hmem
    obtain ⟨a, ha, rfl⟩ := List.mem_map.mp hmem
    exact List.mem_map.mpr ⟨a, ha, rfl⟩

/-! ### Changes of declarations -/

theorem unchanged : ∃ change, Alike c (added.map change) model model' :=
  ⟨id, by rwa [List.map_id]⟩

/-- Models stay alike if all declarations change alike. -/
theorem mapData {g k : DataDeclaration → DataDeclaration}
    (hg : ∀ d ∈ model.data, k (d.rename c.symbols) = (g d).rename c.symbols)
    (hisOf : ∀ d ∈ model.data, ∀ name, d.IsOf c name → (g d).IsOf c name) :
    Alike c (added.map g) { model with data := model.data.map g }
      { model' with data := model'.data.map k } where
  data := by
    obtain ⟨own, own', hdata, hdata', hperm, hown⟩ := h.data
    rw [hdata] at hg hisOf
    refine ⟨own.map g, own'.map k, ?_, ?_, ?_, ?_⟩
    · exact congrArg (List.map g) hdata |>.trans List.map_append
    · have hadded : (added.map (DataDeclaration.rename c.symbols)).map k =
          (added.map g).map (DataDeclaration.rename c.symbols) := by
        rw [List.map_map, List.map_map]
        exact List.map_congr_left fun d hd => hg d (List.mem_append_right _ hd)
      exact (congrArg (List.map k) hdata').trans (List.map_append.trans (congrArg _ hadded))
    · exact perm_map_image hperm fun d hd => hg d (List.mem_append_left _ hd)
    · exact hown.map fun d hd => hisOf d (List.mem_append_left _ hd)
  aliases := h.aliases
  enums := h.enums
  helpers := h.helpers
  inlinedEnums := h.inlinedEnums

theorem mapDataTypes {selects selects' : DataDeclaration → Bool} {g g' : TypeExpr → TypeExpr}
    (hselects : ∀ d, selects' (d.rename c.symbols) = selects d)
    (hg : ∀ t, g' (t.rename c.symbols) = (g t).rename c.symbols) :
    ∃ change, Alike c (added.map change) (model.mapDataTypes selects g)
      (model'.mapDataTypes selects' g') := by
  refine ⟨_, h.mapData (fun d _ => ?_) fun d _ name hname => ?_⟩
  · rw [hselects]
    split
    · exact d.rename_mapTypes hg
    · rfl
  · split
    · exact hname.congr rfl rfl rfl
    · exact hname

theorem withoutRestated :
    ∃ change, Alike c (added.map change) model.withoutRestated model'.withoutRestated :=
  ⟨_, h.mapData (fun d _ => h.mirrors.dropRestated d) fun _ _ _ hname => hname.congr rfl rfl rfl⟩

theorem withImplemented :
    ∃ change, Alike c (added.map change) model.withImplemented model'.withImplemented := by
  refine ⟨_, h.mapData (fun d _ => h.mirrors.copyImplemented d) fun d _ name hname => ?_⟩
  unfold copyImplemented
  split
  · exact hname.congr rfl rfl rfl
  · exact hname

theorem withHelper (helper : Helper) : Alike c added (model.withHelper helper)
    (model'.withHelper helper) := by
  unfold Model.withHelper
  rw [h.helpers]
  split
  · exact h
  · exact ⟨h.data, h.aliases, h.enums, rfl, h.inlinedEnums⟩

theorem withRevival :
    ∃ change, Alike c (added.map change) model.withRevival model'.withRevival := by
  have hhelper := h.withHelper .copyFunctions
  refine ⟨_, hhelper.mapData (fun d _ => ?_) fun d _ name hname => ?_⟩
  · have hclass : (d.rename c.symbols).isDataClass = d.isDataClass := rfl
    rw [hclass]
    split
    · rw [hhelper.mirrors.revivalMethods]
      rfl
    · rfl
  · split
    · exact hname.congr rfl rfl rfl
    · exact hname

theorem withOptionalForm (form : OptionalForm) :
    ∃ change, Alike c (added.map change) (model.withOptionalForm form)
      (model'.withOptionalForm form) := by
  unfold Model.withOptionalForm
  split
  · exact h.unchanged
  · refine ⟨_, h.mapData (fun d _ => ?_) fun d _ name hname => ?_⟩
    · rw [DataDeclaration.rename_category]
      split
      · simp [DataDeclaration.rename, Property.rename, TypeExpr.rename_optionalForm,
          Function.comp_def]
      · rfl
    · split
      · exact hname.congr rfl rfl rfl
      · exact hname

theorem withCopyFunctions (response : Symbol) :
    ∃ change, Alike c (added.map change) (model.withCopyFunctions response)
      (model'.withCopyFunctions (c.symbols response)) := by
  refine ⟨_, h.mapData (fun d _ => ?_) fun d _ name hname => ?_⟩
  · rw [DataDeclaration.rename_isClass, DataDeclaration.rename_category]
    split
    · have hmethods : (d.rename c.symbols).methods.map
          (model'.addCopyFunction (c.symbols response)) =
          (d.methods.map (model.addCopyFunction response)).map (Method.rename c.symbols) := by
        rw [DataDeclaration.rename_methods, List.map_map, List.map_map]
        exact List.map_congr_left fun m _ => h.mirrors.addCopyFunction response m
      rw [hmethods]
      rfl
    · rfl
  · split
    · exact hname.congr rfl rfl rfl
    · exact hname

/-- Models stay alike if the same declarations are added behind theirs. -/
theorem addServices (aliases : List AliasDeclaration) (declared : List DataDeclaration) :
    Alike c (added ++ declared)
      { model with data := model.data ++ declared, aliases := model.aliases ++ aliases }
      { model' with
        data := model'.data ++ declared.map (DataDeclaration.rename c.symbols)
        aliases := model'.aliases ++ aliases.map (AliasDeclaration.rename c.symbols) } where
  data := by
    obtain ⟨own, own', hdata, hdata', hperm, hown⟩ := h.data
    refine ⟨own, own', ?_, ?_, hperm, hown⟩
    · rw [hdata, List.append_assoc]
    · rw [hdata', List.append_assoc, List.map_append]
  aliases := List.map_append ▸ h.aliases.append_right _
  enums := h.enums
  helpers := h.helpers
  inlinedEnums := h.inlinedEnums

/-! ### Dates -/

theorem dateCount {selects selects' : DataDeclaration → Bool}
    (hselects : ∀ d, selects' (d.rename c.symbols) = selects d) :
    model'.dateCount selects' = model.dateCount selects := by
  have hdates : ∀ ds : List DataDeclaration,
      (ds.map (DataDeclaration.rename c.symbols)).flatMap (fun d => d.types.flatMap (·.nodes)) =
        (ds.flatMap fun d => d.types.flatMap (·.nodes)).map (TypeExpr.rename c.symbols) := by
    intro ds
    simp only [List.flatMap_map, List.map_flatMap, DataDeclaration.types_rename,
      TypeExpr.nodes_rename]
  have hperm := (perm_filter_image h.perm_data hselects).flatMap_right
    fun d => d.types.flatMap (·.nodes)
  rw [Model.dateCount, Model.dateCount, ← hperm.countP_eq, hdates, List.countP_map]
  exact congrArg (List.countP · _) (funext TypeExpr.isTemporal_rename)

theorem replaceDates {selects selects' : DataDeclaration → Bool}
    (hselects : ∀ d, selects' (d.rename c.symbols) = selects d) (s : Symbol) :
    ∃ change, Alike c (added.map change) (model.replaceDates selects s)
      (model'.replaceDates selects' (c.symbols s)) := by
  refine h.mapDataTypes hselects fun t => (TypeExpr.rename_transform t fun n => ?_).symm
  rw [TypeExpr.isTemporal_rename]
  split
  · exact TypeExpr.rename_reference s []
  · rfl

/-! ### Enums -/

theorem inlineEnums (selects selects' : DataDeclaration → Bool)
    (hselects : ∀ d, selects' (d.rename c.symbols) = selects d) :
    ∃ change, Alike c (added.map change) (model.inlineEnums selects)
      (model'.inlineEnums selects') :=
  h.mapDataTypes hselects fun t => (TypeExpr.rename_replaceBare t h.inlinedEnums).symm

theorem perm_stringEnums :
    ((model.enums.filter (·.isStringBased)).map (EnumDeclaration.rename c.symbols)).Perm
      (model'.enums.filter (·.isStringBased)) :=
  perm_filter_image h.enums fun _ => rfl

theorem enumsAsAliases : Alike c added model.enumsAsAliases model'.enumsAsAliases where
  data := h.data
  aliases := by
    refine List.map_append ▸ h.aliases.append (perm_map_image h.perm_stringEnums fun e _ => ?_)
    rw [AliasDeclaration.rename, EnumDeclaration.toAlias, EnumDeclaration.toAlias,
      TypeExpr.rename_literalUnion]
    rfl
  enums := by
    have hnumbers := perm_filter_image (p := (!·.isStringBased)) (q := (!·.isStringBased)) h.enums
      fun _ => rfl
    exact perm_map_image hnumbers fun _ _ => rfl
  helpers := h.helpers
  inlinedEnums := h.inlinedEnums

theorem mapEnums {g : EnumDeclaration → EnumDeclaration}
    (hg : ∀ e, g (e.rename c.symbols) = (g e).rename c.symbols) :
    Alike c added { model with enums := model.enums.map g }
      { model' with enums := model'.enums.map g } where
  data := h.data
  aliases := h.aliases
  enums := perm_map_image h.enums fun e _ => hg e
  helpers := h.helpers
  inlinedEnums := h.inlinedEnums

theorem perm_aliasSymbols : (model.aliasSymbols.map c.symbols).Perm model'.aliasSymbols := by
  have haliases := perm_map_image (g := (·.symbol)) (k := (·.symbol)) h.aliases fun _ _ => rfl
  have henums := perm_map_image (g := (·.symbol)) (k := (·.symbol)) h.enums fun _ _ => rfl
  rw [Model.aliasSymbols, List.map_append]
  exact haliases.append henums

theorem enumsInlined (hnodup : model.aliasSymbols.Nodup) :
    ∃ change, Alike c (added.map change) model.enumsInlined model'.enumsInlined := by
  have hfresh := model.fresh_of_nodup hnodup
  have hfresh' := model'.fresh_of_nodup
    (h.perm_aliasSymbols.nodup_iff.mp (hnodup.map c.symbols.injective))
  have hlookup : ∀ s, model'.enumsInlined.inlinedEnums.lookup (c.symbols s) =
      (model.enumsInlined.inlinedEnums.lookup s).map (TypeExpr.rename c.symbols) := by
    intro s
    have hdistinct : ((model.enums.filter (·.isStringBased)).map (·.symbol)).Nodup :=
      (List.nodup_append.mp hnodup).2.1.sublist (List.filter_sublist.map _)
    rw [Model.lookup_inlinedEnums_enumsInlined hfresh,
      Model.lookup_inlinedEnums_enumsInlined hfresh',
      find?_reverse_key c.symbols.injective EnumDeclaration.symbol EnumDeclaration.symbol
        (fun _ => rfl) h.perm_stringEnums hdistinct,
      Option.map_map, Option.map_or, Option.map_map, ← h.inlinedEnums]
    simp only [Function.comp_def, TypeExpr.rename_literalUnion]
    rfl
  obtain ⟨change, hinlined⟩ : ∃ change, Alike c (added.map change)
      (model.mapDataTypes (fun _ => true)
        (·.replaceBare fun s => model.enumsInlined.inlinedEnums.lookup s))
      (model'.mapDataTypes (fun _ => true)
        (·.replaceBare fun s => model'.enumsInlined.inlinedEnums.lookup s)) :=
    h.mapDataTypes (fun _ => rfl) fun t => (TypeExpr.rename_replaceBare t hlookup).symm
  refine ⟨change, hinlined.data, ?_, h.enumsAsAliases.enums, h.helpers, hlookup⟩
  rw [Model.aliases_enumsInlined hfresh, Model.aliases_enumsInlined hfresh']
  exact h.aliases

theorem representEnums (hnodup : model.aliasSymbols.Nodup) (mapping : EnumMapping) :
    ∃ change, Alike c (added.map change) (model.representEnums mapping)
      (model'.representEnums mapping) := by
  cases mapping with
  | literalUnion => exact h.enumsAsAliases.unchanged
  | inlinedLiteralUnion => exact h.enumsInlined hnodup
  | numericPlaceholder =>
    refine (h.mapEnums fun e => ?_).unchanged
    have htexts : (e.rename c.symbols).isStringBased = e.isStringBased := rfl
    rw [htexts]
    split <;> rfl
  | unmodified => exact (h.mapEnums (g := EnumDeclaration.valued) fun e => rfl).unchanged

/-! ### Unions -/

theorem withUnions {unions unions' : List (Symbol × AliasDeclaration)}
    (hperm : (unions.map (Prod.map c.symbols (AliasDeclaration.rename c.symbols))).Perm unions')
    (hnodup : (unions.map (·.1)).Nodup)
    (hunion : ∀ d ∈ model.data, ∀ name, d.IsOf c name →
      ∀ union, lastOf? unions d.symbol = some union →
      c.hi.find? (.entity name "Union") = some union.symbol) :
    ∃ change, Alike c (added.map change) (model.withUnions unions) (model'.withUnions unions') := by
  have hlast := lastOf?_perm c.symbols.injective hperm hnodup
  have haliases := perm_map_image (g := Prod.snd) (k := Prod.snd)
    (s := AliasDeclaration.rename c.symbols) hperm fun _ _ => rfl
  refine ⟨_, (h.mapData (fun d _ => ?_) fun d hd name hname => ?_).data,
    List.map_append ▸ h.aliases.append haliases, h.enums, h.helpers, h.inlinedEnums⟩
  · rw [DataDeclaration.rename_symbol, hlast]
    cases lastOf? unions d.symbol <;> rfl
  · have hfound := hunion d hd name hname
    cases hlast : lastOf? unions d.symbol with
    | none => exact hname
    | some union =>
      refine ⟨hname.origin, hname.symbol, hname.issued, hname.issued', fun s hs => ?_⟩
      exact Option.some.inj hs ▸ hfound union hlast

theorem lastOf?_unionAliases (s : Symbol) :
    lastOf? model'.unionAliases (c.symbols s) = (lastOf? model.unionAliases s).map c.symbols := by
  obtain ⟨own, own', hdata, hdata', hperm, hown⟩ := h.data
  let pair? := fun d : DataDeclaration => d.unionAlias.map fun union => (d.symbol, union)
  have hpairs : ∀ ds : List DataDeclaration,
      (ds.map (DataDeclaration.rename c.symbols)).filterMap pair? =
        (ds.filterMap pair?).map (Prod.map c.symbols c.symbols) := by
    intro ds
    rw [List.filterMap_map, List.map_filterMap]
    refine List.filterMap_congr fun d _ => ?_
    simp only [pair?, Function.comp_apply, DataDeclaration.rename_unionAlias, Option.map_map]
    rfl
  have hfirst : lastOf? (own'.filterMap pair?) (c.symbols s) =
      (lastOf? (own.filterMap pair?) s).map c.symbols := by
    refine lastOf?_perm c.symbols.injective (hpairs own ▸ hperm.filterMap pair?) ?_ s
    exact hown.nodup_symbols.sublist (sublist_keys _ _ own)
  have halias : ∀ model : Model, model.unionAliases = model.data.filterMap pair? := fun _ => rfl
  rw [halias, halias, hdata, hdata', List.filterMap_append, List.filterMap_append, lastOf?_append,
    lastOf?_append, hfirst, hpairs, lastOf?_map c.symbols.injective, Option.map_or]

theorem useUnions (selects selects' : DataDeclaration → Bool)
    (hselects : ∀ d, selects' (d.rename c.symbols) = selects d) :
    ∃ change, Alike c (added.map change) (model.useUnions selects) (model'.useUnions selects') := by
  refine h.mapDataTypes hselects fun t => (TypeExpr.rename_replaceBare t fun s => ?_).symm
  rw [h.lastOf?_unionAliases, Option.map_map, Option.map_map]
  exact congrArg (Option.map · _) (funext fun s => (TypeExpr.rename_reference s []).symm)

theorem perm_unionBases :
    (model.unionBases.map (DataDeclaration.rename c.symbols)).Perm model'.unionBases :=
  perm_filter_image h.perm_data fun _ => rfl

end Alike

end Model

end Typings
