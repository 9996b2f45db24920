import Typings.Proofs.Model.Hierarchy
import Typings.Proofs.Model.Retyping
import Typings.Proofs.Model.TaggedUnions
import Typings.Proofs.Type.Replacement

/-!
# Synthesis of tagged unions

Every base of a tagged union gets one alias, which stands for the base wherever it is referred to
without type arguments. The aliases are used all at once: an alias that takes the place of a base is
not a base itself, since its symbol has a suffix.

## Main definitions

* `DataDeclaration.HasUnion`: a declaration is the base of a tagged union.
* `Model.Members`: references to the declared entities of a list.
* `Model.IsUnion`: an alias is that of the union of a base.
* `Model.UsesUnion`: the alias of a union takes the place of a base.

## Main results

* `Model.lastOf?_unionAliases_withUnions`: which aliases are used.
* `Model.united_declareUnions`: what declaring tagged unions does to a model.
-/

namespace Typings

/-- Whether the second symbol is derived from the first one, that of an entity, for its union. -/
def SymbolTable.IsUnionSymbol (table : SymbolTable) (base union : Symbol) : Prop :=
  ∃ name, table.origin? base = some (.entity name "") ∧
    table.find? (.entity name "Union") = some union

namespace SymbolTable.IsUnionSymbol

variable {table : SymbolTable} {base union other : Symbol}

theorem unique (h : table.IsUnionSymbol base union) (h' : table.IsUnionSymbol base other) :
    union = other := by
  obtain ⟨name, horigin, hfound⟩ := h
  obtain ⟨name', horigin', hfound'⟩ := h'
  rw [horigin, Option.some.injEq, Origin.entity.injEq] at horigin'
  obtain ⟨rfl, -⟩ := horigin'
  exact Option.some.inj (hfound.symm.trans hfound')

/-- The symbol of a union has a suffix, so there is no union of it. -/
theorem not_base (h : table.IsUnionSymbol base union) : ¬table.IsUnionSymbol union other := by
  rintro ⟨name', horigin', -⟩
  obtain ⟨name, -, hfound⟩ := h
  rw [SymbolTable.origin?_of_find? hfound, Option.some.injEq, Origin.entity.injEq] at horigin'
  exact absurd horigin'.2 (by decide)

end SymbolTable.IsUnionSymbol

/-- Whether a declaration is the base of a tagged union: it has a discriminant and lists members. -/
def DataDeclaration.HasUnion (d : DataDeclaration) : Prop :=
  d.discriminantProperty ≠ none ∧ d.unionMembers ≠ []

instance : DecidablePred DataDeclaration.HasUnion :=
  fun _ => inferInstanceAs (Decidable (_ ∧ _))

namespace Model

open Work

variable {model : Model} {table lo hi : SymbolTable} {base d : DataDeclaration}

theorem isUnionBase_eq (d : DataDeclaration) : isUnionBase d = decide d.HasUnion := by
  rw [Bool.eq_iff_iff, decide_eq_true_iff]
  simp [isUnionBase, DataDeclaration.HasUnion, Option.isSome_iff_ne_none]

theorem unionBases_eq (model : Model) : model.unionBases = model.data.filter (·.HasUnion) :=
  List.filter_congr fun d _ => isUnionBase_eq d

/-! ## Aliases -/

/-- References to the declarations that are made of the listed entities, in the order of the list:
to the first one of each entity. Entities without a declaration are left out. -/
inductive Members (model : Model) : List String → List TypeExpr → Prop
  | nil : Members model [] []
  | declared {entity : String} {entities : List String} {members : List TypeExpr}
      {before after : List DataDeclaration} {d : DataDeclaration} :
      model.data = before ++ d :: after → d.origin = some entity →
      (∀ e ∈ before, e.origin ≠ some entity) → Members model entities members →
      Members model (entity :: entities) (.bare d.symbol :: members)
  | missing {entity : String} {entities : List String} {members : List TypeExpr} :
      (∀ d ∈ model.data, d.origin ≠ some entity) → Members model entities members →
      Members model (entity :: entities) members

theorem exists_members (model : Model) (base : DataDeclaration) :
    ∃ members, model.Members base.unionMembers members ∧
      model.unionDefinition base = .union members := by
  refine ⟨_, ?_, rfl⟩
  induction base.unionMembers with
  | nil => exact .nil
  | cons entity entities ih =>
    rw [List.filterMap_cons]
    cases hfound : model.findOrigin? entity with
    | none =>
      refine .missing (fun d hd horigin => ?_) ih
      exact List.find?_eq_none.mp hfound d hd (beq_iff_eq.mpr horigin)
    | some d =>
      obtain ⟨horigin, before, after, hdata, hbefore⟩ := List.find?_eq_some_iff_append.mp hfound
      refine .declared hdata (beq_iff_eq.mp horigin) (fun e he => ?_) ih
      simpa using hbefore e he

/-- Whether an alias is that of the union of a base: its symbol is derived from that of the base,
and it is defined as the union of the declared members. -/
structure IsUnion (table : SymbolTable) (model : Model) (base : DataDeclaration)
    (union : AliasDeclaration) : Prop where
  symbol : table.IsUnionSymbol base.symbol union.symbol
  definition : ∃ members, model.Members base.unionMembers members ∧
    union = { origin := base.origin, symbol := union.symbol, definition := .union members }

theorem yields_isUnion (hle : lo ≤ hi) (hsymbols : (model.data.map (·.symbol)).Nodup)
    (hbase : base ∈ model.data)
    (hentity : ∃ name, lo.origin? base.symbol = some (.entity name "")) :
    Yields lo hi (do let union ← model.unionAlias base; pure (base.symbol, union))
      fun union => union.1 = base.symbol ∧ IsUnion hi model base union.2 := by
  obtain ⟨name, hname⟩ := hentity
  refine .bind (P := IsUnion hi model base) ?_ fun union => .pure fun h => ⟨rfl, h⟩
  refine .bind (yields_suffixedSymbol base.symbol "Union") fun symbol =>
    .pure fun hsymbol => ⟨?_, ?_⟩
  · exact ⟨name, SymbolTable.origin?_mono hle hname, hsymbol _ hname⟩
  · obtain ⟨members, hmembers, hdefinition⟩ := model.exists_members base
    refine ⟨members, hmembers, ?_⟩
    rw [findData?_eq_some hsymbols hbase, hdefinition]
    rfl

/-! ## Uses -/

theorem lastOf?_eq_some_iff {α β : Type} [DecidableEq α] {entries : List (α × β)}
    (hnodup : (entries.map (·.1)).Nodup) {key : α} {value : β} :
    lastOf? entries key = some value ↔ (key, value) ∈ entries := by
  have hreverse : (entries.reverse.map (·.1)).Nodup := by
    rw [List.map_reverse]
    exact List.nodup_reverse.mpr hnodup
  rw [lastOf?, lookup_key_eq_some_iff hreverse, List.mem_reverse]

/-- Whether the second type is a reference to the alias of a union and the first one a reference to
its base, both without type arguments. -/
def UsesUnion (table : SymbolTable) (model : Model) (t u : TypeExpr) : Prop :=
  ∃ base ∈ model.data, base.HasUnion ∧ ∃ union, table.IsUnionSymbol base.symbol union ∧
    t = .bare base.symbol ∧ u = .bare union

section Declared

variable {unions : List (Symbol × AliasDeclaration)}
  (hsymbols : (model.data.map (·.symbol)).Nodup)
  (hunions : List.Forall₂ (fun base union => union.1 = base.symbol ∧
    IsUnion table model base union.2) model.unionBases unions)

include hsymbols hunions

/-- The bases record the symbols of their unions. -/
theorem map_symbol_lastOf?_eq_some_iff (hd : d ∈ model.data) {symbol : Symbol} :
    (lastOf? unions d.symbol).map (·.symbol) = some symbol ↔
      d.HasUnion ∧ table.IsUnionSymbol d.symbol symbol := by
  have hkeys : unions.map (·.1) = model.unionBases.map (·.symbol) :=
    (map_eq_map_of_forall₂ hunions fun _ _ h => h.1.symm).symm
  have hnodup : (unions.map (·.1)).Nodup :=
    hkeys ▸ hsymbols.sublist (List.filter_sublist.map _)
  simp only [Option.map_eq_some_iff, lastOf?_eq_some_iff hnodup]
  constructor
  · rintro ⟨union, hunion, rfl⟩
    obtain ⟨base, hbase, hkey, hisUnion⟩ := exists_mem_of_forall₂ hunions hunion
    rw [unionBases_eq, List.mem_filter, decide_eq_true_iff] at hbase
    obtain rfl : base = d := List.inj_on_of_nodup_map hsymbols hbase.1 hd hkey.symm
    exact ⟨hbase.2, hisUnion.symbol⟩
  · rintro ⟨hunion, hsymbol⟩
    have hbase : d ∈ model.unionBases := by
      rw [unionBases_eq, List.mem_filter, decide_eq_true_iff]
      exact ⟨hd, hunion⟩
    obtain ⟨⟨_, union⟩, hmem, rfl, hisUnion⟩ := exists_mem_of_forall₂ hunions.flip hbase
    exact ⟨union, hmem, hisUnion.symbol.unique hsymbol⟩

variable (hnew : ∀ d ∈ model.data, d.unionAlias = none)

include hnew

omit hsymbols hunions in
theorem data_withUnions (unions : List (Symbol × AliasDeclaration)) :
    (model.withUnions unions).data =
      model.data.map fun d =>
        { d with unionAlias := (lastOf? unions d.symbol).map (·.symbol) } := by
  refine List.map_congr_left fun d hd => ?_
  cases lastOf? unions d.symbol with
  | some union => rfl
  | none =>
    have hnone := hnew d hd
    cases d
    cases hnone
    rfl

/-- The aliases that are used are the new ones, for the bases. -/
theorem lastOf?_unionAliases_withUnions {s symbol : Symbol} :
    lastOf? (model.withUnions unions).unionAliases s = some symbol ↔
      ∃ base ∈ model.data, base.HasUnion ∧ table.IsUnionSymbol base.symbol symbol ∧
        base.symbol = s := by
  have haliases : (model.withUnions unions).unionAliases = model.data.filterMap fun d =>
      ((lastOf? unions d.symbol).map (·.symbol)).map fun symbol => (d.symbol, symbol) := by
    rw [unionAliases, data_withUnions hnew, List.filterMap_map]
    rfl
  have hnodup : ((model.withUnions unions).unionAliases.map (·.1)).Nodup :=
    haliases ▸ hsymbols.sublist (sublist_keys _ _ model.data)
  rw [lastOf?_eq_some_iff hnodup, haliases, List.mem_filterMap]
  constructor
  · rintro ⟨base, hbase, hpair⟩
    obtain ⟨symbol', hsymbol, heq⟩ := Option.map_eq_some_iff.mp hpair
    obtain ⟨rfl, rfl⟩ := Prod.mk.inj heq
    obtain ⟨hunion, hsymbol⟩ := (map_symbol_lastOf?_eq_some_iff hsymbols hunions hbase).mp hsymbol
    exact ⟨base, hbase, hunion, hsymbol, rfl⟩
  · rintro ⟨base, hbase, hunion, hsymbol, rfl⟩
    refine ⟨base, hbase, ?_⟩
    rw [(map_symbol_lastOf?_eq_some_iff hsymbols hunions hbase).mpr ⟨hunion, hsymbol⟩]
    rfl

/-- Using the aliases replaces references to bases, at any depth. -/
theorem replacedBy_replaceBare (t : TypeExpr) :
    TypeExpr.ReplacedBy (model.UsesUnion table) t
      (t.replaceBare fun s => (lastOf? (model.withUnions unions).unionAliases s).map .bare) := by
  refine .replaceBare (fun t u => ?_) t
  simp only [Option.map_eq_some_iff, lastOf?_unionAliases_withUnions hsymbols hunions hnew]
  constructor
  · rintro ⟨base, hbase, hunion, symbol, hsymbol, rfl, rfl⟩
    exact ⟨base.symbol, rfl, symbol, ⟨base, hbase, hunion, hsymbol, rfl⟩, rfl⟩
  · rintro ⟨_, rfl, symbol, ⟨base, hbase, hunion, hsymbol, rfl⟩, rfl⟩
    exact ⟨base, hbase, hunion, symbol, hsymbol, rfl, rfl⟩

/-- With the aliases, declarations are retyped and bases record their unions. -/
theorem retyped_useUnions :
    List.Forall₂ (fun d d' => d.Retyped (TypeExpr.ReplacedBy (model.UsesUnion table)) d' ∧
        ∀ union, d'.unionAlias = some union ↔ d.HasUnion ∧ table.IsUnionSymbol d.symbol union)
      model.data ((model.withUnions unions).useUnions fun _ => true).data := by
  unfold useUnions mapDataTypes
  rw [data_withUnions hnew, List.map_map]
  refine List.forall₂_map_right_iff.mpr (List.forall₂_same.mpr fun d hd => ⟨?_, fun union => ?_⟩)
  · have hretyped := DataDeclaration.Retyped.mapTypes (d := d) fun t _ =>
      replacedBy_replaceBare hsymbols hunions hnew t
    exact ⟨hretyped.frame, hretyped.properties, hretyped.methods, hretyped.ctor⟩
  · exact map_symbol_lastOf?_eq_some_iff hsymbols hunions hd

end Declared

/-- No reference to a base is left in what the aliases are used in. -/
theorem UsesUnion.forall_nodes {t u : TypeExpr}
    (h : TypeExpr.ReplacedBy (model.UsesUnion table) t u) :
    ∀ n ∈ u.nodes, ∀ v, ¬model.UsesUnion table n v := by
  refine h.forall_nodes ?_ ?_
  · rintro _ _ ⟨base, -, -, union, -, rfl, rfl⟩
    rfl
  · rintro _ _ ⟨base, -, -, union, hsymbol, rfl, rfl⟩ n hn v
      ⟨base', -, -, union', hsymbol', rfl, rfl⟩
    obtain rfl : base'.symbol = union := by simpa [TypeExpr.nodes, TypeExpr.nodesAll] using hn
    exact hsymbol.not_base hsymbol'

/-- Declaring tagged unions adds one alias for every base of one, in the order of the bases, and no
other. Every base records its alias. The types of members have references to the aliases where they
had references to bases without type arguments, at any depth, and no such reference is left.
Everything else stays as it is; a reference with type arguments keeps its symbol, whatever becomes
of its arguments. -/
theorem united_declareUnions {session : Session} (hsymbols : (model.data.map (·.symbol)).Nodup)
    (hentities : ∀ d ∈ model.data, ∃ name,
      session.symbols.origin? d.symbol = some (.entity name ""))
    (hnew : ∀ d ∈ model.data, d.unionAlias = none) :
    let result := (model.declareUnions.run session).1
    let table := (model.declareUnions.run session).2.symbols
    ∃ unions, result = { model with data := result.data, aliases := model.aliases ++ unions } ∧
      List.Forall₂ (model.IsUnion table) (model.data.filter (·.HasUnion)) unions ∧
      List.Forall₂ (fun d d' => d.Retyped (TypeExpr.ReplacedBy (model.UsesUnion table)) d' ∧
          ∀ union, d'.unionAlias = some union ↔ d.HasUnion ∧ table.IsUnionSymbol d.symbol union)
        model.data result.data ∧
      ∀ d' ∈ result.data, ∀ t ∈ d'.types, ∀ n ∈ t.nodes, ∀ base ∈ model.data, base.HasUnion →
        n ≠ .bare base.symbol := by
  intro result table
  have hgrows : Yields session.symbols table model.declareUnions _ := yields_declareUnions
  have hle : session.symbols ≤ table := hgrows.grows session
  have hyields : Yields session.symbols table model.declareUnions _ :=
    yields_declareUnions_of fun base hbase =>
      have hmem := List.mem_of_mem_filter hbase
      yields_isUnion hle hsymbols hmem (hentities base hmem)
  obtain ⟨unions, hunions, hresult⟩ := hyields.holds (le_refl _) (le_refl _)
  change result = _ at hresult
  have hdeclared : List.Forall₂ (model.IsUnion table) (model.data.filter (·.HasUnion))
      (unions.map (·.2)) := by
    rw [← unionBases_eq, List.forall₂_map_right_iff]
    exact hunions.imp fun _ _ h => h.2
  have hretyped := hresult ▸ retyped_useUnions hsymbols hunions hnew
  refine ⟨unions.map (·.2), ?_, hdeclared, hretyped, ?_⟩
  · rw [hresult]
    rfl
  · rintro d' hd' t ht n hn base hbase hunion rfl
    obtain ⟨d, -, hd, -⟩ := exists_mem_of_forall₂ hretyped hd'
    obtain ⟨_, -, hreplaced⟩ := hd.exists_of_mem_types ht
    have hmem : base ∈ model.data.filter (·.HasUnion) :=
      List.mem_filter.mpr ⟨hbase, decide_eq_true hunion⟩
    obtain ⟨union, -, hisUnion⟩ := exists_mem_of_forall₂ hdeclared.flip hmem
    exact UsesUnion.forall_nodes hreplaced _ hn _ ⟨base, hbase, hunion, _,
      hisUnion.symbol, rfl, rfl⟩

/-- Two bases, one a member of the union of the other one, which also lists an entity twice and one
that is not declared. A property refers to a base below a reference to it with type arguments. -/
def shapes : Model where
  data :=
    [{ symbol := ⟨0⟩, origin := some "Shape", discriminantProperty := some "kind"
       unionMembers := ["Circle", "Ghost", "Square", "Circle"] },
      { symbol := ⟨1⟩, origin := some "Circle", parent := some (.bare ⟨0⟩)
        discriminantProperty := some "size", unionMembers := ["Square"] },
      { symbol := ⟨2⟩, origin := some "Square", interfaces := [.bare ⟨0⟩] },
      { symbol := ⟨3⟩, origin := some "Drawing"
        properties :=
          [{ name := "shapes", type := .array (.reference ⟨0⟩ [.bare ⟨0⟩, .bare ⟨1⟩]) }] }]

/-- A session that issued the symbols of `shapes`. -/
def shapesSession : Session where
  symbols := .ofOrigins
    [.entity "Shape" "", .entity "Circle" "", .entity "Square" "", .entity "Drawing" ""]

theorem united_shapes :
    (shapes.data.map (·.symbol)).Nodup ∧
      (∀ d ∈ shapes.data, ∃ name, shapesSession.symbols.origin? d.symbol = some (.entity name "")) ∧
      (∀ d ∈ shapes.data, d.unionAlias = none) ∧
      List.Forall₂ (shapes.IsUnion (shapes.declareUnions.run shapesSession).2.symbols)
        [shapes.data[0], shapes.data[1]] (shapes.declareUnions.run shapesSession).1.aliases ∧
      ∀ d ∈ (shapes.declareUnions.run shapesSession).1.data, ∀ t ∈ d.types,
        .bare ⟨0⟩ ∉ t.nodes ∧ .bare ⟨1⟩ ∉ t.nodes := by
  have hsymbols : (shapes.data.map (·.symbol)).Nodup := by decide
  have hentities : ∀ d ∈ shapes.data, ∃ name,
      shapesSession.symbols.origin? d.symbol = some (.entity name "") := by
    simp only [shapes, List.forall_mem_cons]
    exact ⟨⟨"Shape", rfl⟩, ⟨"Circle", rfl⟩, ⟨"Square", rfl⟩, ⟨"Drawing", rfl⟩, nofun⟩
  have hnew : ∀ d ∈ shapes.data, d.unionAlias = none := by decide
  refine ⟨hsymbols, hentities, hnew, ?_⟩
  obtain ⟨unions, hresult, hunions, -, hnone⟩ := united_declareUnions hsymbols hentities hnew
  have haliases : (shapes.declareUnions.run shapesSession).1.aliases = unions :=
    congrArg Model.aliases hresult
  refine ⟨haliases ▸ hunions, fun d hd t ht => ⟨fun hn => ?_, fun hn => ?_⟩⟩
  · exact hnone d hd t ht _ hn shapes.data[0] (List.getElem_mem _) (by decide) rfl
  · exact hnone d hd t ht _ hn shapes.data[1] (List.getElem_mem _) (by decide) rfl

end Model

end Typings
