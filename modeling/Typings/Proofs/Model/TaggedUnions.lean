import Typings.Model.TaggedUnions
import Typings.Proofs.Model.Within
import Typings.Proofs.Session

/-!
# Declared unions

## Main definitions

* `Model.IsUnionOf`: an alias is the one that is declared for a base.

## Main results

* `Model.yields_declareUnions`: one alias is declared for every base and used in its place.
* `Model.Rewritten.useUnions`: references are rewritten to the aliases of bases.
-/

namespace Typings

open Work

namespace Model

variable {model : Model} {lo hi : SymbolTable}

/-- Whether an alias is declared for the union of a base. Its symbol is derived from the symbol of
the base. -/
structure IsUnionOf (lo hi : SymbolTable) (model : Model) (base : DataDeclaration)
    (union : Symbol × AliasDeclaration) : Prop where
  key : union.1 = base.symbol
  definition : union.2.definition = model.unionDefinition base
  typeParameters : union.2.typeParameters = []
  symbol : ∀ origin, lo.origin? base.symbol = some origin →
    hi.find? (origin.addSuffix "Union") = some union.2.symbol

/-- The members of a union are declarations. -/
theorem exists_unionDefinition_eq (model : Model) (base : DataDeclaration) :
    ∃ members ⊆ model.data.map (·.symbol), model.unionDefinition base =
      .union (members.map .bare) := by
  refine ⟨base.unionMembers.filterMap fun entity => (model.findOrigin? entity).map (·.symbol),
    fun s hs => ?_, ?_⟩
  · obtain ⟨entity, -, hfound⟩ := List.mem_filterMap.mp hs
    obtain ⟨member, hmember, rfl⟩ := Option.map_eq_some_iff.mp hfound
    exact List.mem_map_of_mem (List.mem_of_find?_eq_some hmember)
  · simp [unionDefinition, List.map_filterMap, Function.comp_def]

theorem yields_union (base : DataDeclaration) :
    Yields lo hi (do let union ← model.unionAlias base; pure (base.symbol, union))
      (IsUnionOf lo hi model base) := by
  refine .bind
    (P := fun union : AliasDeclaration => IsUnionOf lo hi model base (base.symbol, union))
    ?_ fun union => .pure id
  refine .bind (yields_suffixedSymbol base.symbol "Union") fun symbol => .pure fun hsymbol => ?_
  exact ⟨rfl, rfl, rfl, hsymbol⟩

/-- What holds of each alias as it is declared holds of all of them, and all of them are used. -/
theorem yields_declareUnions_of {R : DataDeclaration → Symbol × AliasDeclaration → Prop}
    (h : ∀ base ∈ model.unionBases,
      Yields lo hi (do let union ← model.unionAlias base; pure (base.symbol, union)) (R base)) :
    Yields lo hi model.declareUnions fun result =>
      ∃ unions, List.Forall₂ R model.unionBases unions ∧
        result = (model.withUnions unions).useUnions fun _ => true := by
  refine .bind (.forM fun _ => yields_report _ _ _) fun _ => ?_
  exact .bind (.mapM (R := R) h) fun unions => .pure fun hunions _ => ⟨unions, hunions, rfl⟩

/-- Declaring unions gives every base an alias, and uses the aliases. -/
theorem yields_declareUnions :
    Yields lo hi model.declareUnions fun result =>
      ∃ unions, List.Forall₂ (IsUnionOf lo hi model) model.unionBases unions ∧
        result = (model.withUnions unions).useUnions fun _ => true :=
  yields_declareUnions_of fun base _ => yields_union base

theorem mem_of_lastOf? {α β : Type} [BEq α] [LawfulBEq α] {entries : List (α × β)} {key : α}
    {value : β} (h : lastOf? entries key = some value) : (key, value) ∈ entries := by
  obtain ⟨before, after, heq, -⟩ := List.lookup_eq_some_iff.mp h
  have hmem : (key, value) ∈ entries.reverse := by simp [heq]
  exact List.mem_reverse.mp hmem

/-! ## The aliases of bases -/

section WithUnions

variable {unions : List (Symbol × AliasDeclaration)} {scope : DataDeclaration → Vocabulary}

@[simp] theorem frames_withUnions : (model.withUnions unions).frames = model.frames :=
  frames_map fun d => by split <;> rfl

/-- A declaration with unions is one without them, up to the alias of its union, which is among the
new ones. -/
theorem mem_withUnions {d' : DataDeclaration} (h : d' ∈ (model.withUnions unions).data) :
    ∃ d ∈ model.data, d' = d ∨
      ∃ union, (d.symbol, union) ∈ unions ∧ d' = { d with unionAlias := some union.symbol } := by
  obtain ⟨d, hd, rfl⟩ := List.mem_map.mp h
  refine ⟨d, hd, ?_⟩
  split
  case h_1 union hfound => exact .inr ⟨union, mem_of_lastOf? hfound, rfl⟩
  case h_2 => exact .inl rfl

theorem PropertiesWithin.withUnions (h : model.PropertiesWithin scope) :
    (model.withUnions unions).PropertiesWithin scope := by
  intro d' hd'
  obtain ⟨d, hd, rfl | ⟨union, -, rfl⟩⟩ := mem_withUnions hd'
  · exact h _ hd
  · exact h d hd

theorem MembersWithin.withUnions (h : model.MembersWithin scope) :
    (model.withUnions unions).MembersWithin scope := by
  intro d' hd'
  obtain ⟨d, hd, rfl | ⟨union, -, rfl⟩⟩ := mem_withUnions hd'
  · exact h _ hd
  · exact ⟨(h d hd).methods, (h d hd).ctor⟩

theorem CodeWithin.withUnions {voc : CodeVocabulary} (h : model.CodeWithin voc) :
    (model.withUnions unions).CodeWithin voc := by
  intro d' hd'
  obtain ⟨d, hd, rfl | ⟨union, -, rfl⟩⟩ := mem_withUnions hd'
  · exact h _ hd
  · exact h d hd

theorem UnionsDeclared.withUnions (h : model.UnionsDeclared) :
    (model.withUnions unions).UnionsDeclared := by
  intro d' hd' s hs
  show s ∈ (model.aliases ++ unions.map (·.2)).map (·.symbol)
  rw [List.map_append, List.mem_append]
  obtain ⟨d, hd, rfl | ⟨union, hunion, rfl⟩⟩ := mem_withUnions hd'
  · exact .inl (h _ hd s hs)
  · obtain rfl := Option.some.inj hs
    exact .inr (List.mem_map_of_mem (List.mem_map_of_mem hunion))

end WithUnions

@[simp] theorem frames_useUnions (selects : DataDeclaration → Bool) :
    (model.useUnions selects).frames = model.frames :=
  frames_mapDataTypes _ _

/-- References are rewritten to the aliases of bases. -/
theorem Rewritten.useUnions {selects : DataDeclaration → Bool}
    {scope : DataDeclaration → Vocabulary} (hselects : ∀ d, selects d.frame = selects d)
    (hunions : model.UnionsDeclared)
    (haliased : ∀ d, ∀ a ∈ model.aliases, ∀ n, (scope d).symbol a.symbol n) :
    Rewritten scope scope model (model.useUnions selects) := by
  refine .mapDataTypes hselects (fun d _ names t ht => ?_) fun d _ => .refl _
  refine ht.replaceBare_self fun s r hr => ?_
  obtain ⟨union, hunion, rfl⟩ := Option.map_eq_some_iff.mp hr
  obtain ⟨base, hbase, hpair⟩ := List.mem_filterMap.mp (mem_of_lastOf? hunion)
  obtain ⟨_, hdeclared, heq⟩ := Option.map_eq_some_iff.mp hpair
  obtain ⟨rfl, rfl⟩ := Prod.mk.inj heq
  obtain ⟨a, ha, rfl⟩ := List.mem_map.mp (hunions base hbase _ hdeclared)
  exact TypeExpr.within_reference.mpr ⟨haliased d a ha _, by simp⟩

theorem UnionsDeclared.useUnions {selects : DataDeclaration → Bool} (h : model.UnionsDeclared) :
    (model.useUnions selects).UnionsDeclared := by
  intro d' hd' s hs
  obtain ⟨d, hd, rfl⟩ := mem_mapDataTypes.mp hd'
  split at hs
  · exact h d hd s hs
  · exact h d hd s hs

end Model

end Typings
