import Mathlib.Data.List.InsertIdx
import Typings.Model.Revival
import Typings.Proofs.Model.Within

/-!
# What revival adds

Revival adds methods to the classes of a model. Their types refer to the class itself and to the
alias of its union, and their code to the types of its properties.

## Main definitions

* `Model.Revives`: a vocabulary of code has what revival refers to.

## Main results

* `Model.within_copyFunction`: the code that copies values of a type.
* `Model.within_of_mem_revivalMethods`, `Model.codeWithin_of_mem_revivalMethods`: the types and the
  code of the methods.
-/

namespace Typings

namespace Model

variable {model : Model} {d : DataDeclaration}

/-- Whether a vocabulary of code has the declarations of a model and what copies values. -/
structure Revives (model : Model) (voc : CodeVocabulary) : Prop where
  symbol : ∀ d ∈ model.data, ∀ n, voc.types.symbol d.symbol n
  var : ∀ v, voc.types.var v
  helper : ∀ name ∈ Helper.copyFunctions.functions, voc.callable name
  parameter : ∀ v, voc.callable (constructorName v)

theorem mem_of_revivable? {symbol : Symbol} (h : model.revivable? symbol = some d) :
    d ∈ model.data :=
  List.mem_of_find?_eq_some (Option.filter_eq_some_iff.mp h).1

theorem copyFunctions_eq_map (model : Model) (types : List TypeExpr) :
    model.copyFunctions types = types.map model.copyFunction := by
  induction types with
  | nil => rfl
  | cons t rest ih => rw [copyFunctions, ih, List.map_cons]

/-- The methods of a revived class: the functions that it has a use for, and those that it had. -/
theorem mem_revivalMethods_iff {m : Method} :
    m ∈ model.revivalMethods d ↔ (d.typeParameters ≠ [] ∧ m = d.fromDataFn) ∨ m = model.fromData d ∨
      (d.unionAlias.isSome = true ∧ m = model.fromDataUnion d) ∨ m ∈ d.methods := by
  have hgeneric : m ∈ (if d.typeParameters.isEmpty then [] else [d.fromDataFn]) ↔
      d.typeParameters ≠ [] ∧ m = d.fromDataFn := by
    split
    case isTrue h => simp [List.isEmpty_iff.mp h]
    case isFalse h => simpa using fun _ => fun hnil => h (List.isEmpty_iff.mpr hnil)
  unfold revivalMethods
  dsimp only
  split
  case isTrue hunion =>
    have hlength : 1 ≤ ((if d.typeParameters.isEmpty then [] else [d.fromDataFn]) ++
        model.fromData d :: d.methods).length := by
      rw [List.length_append, List.length_cons]
      omega
    rw [List.mem_insertIdx hlength, List.mem_append, List.mem_cons, hgeneric]
    simp only [hunion, true_and]
    grind
  case isFalse hunion =>
    rw [List.mem_append, List.mem_cons, hgeneric]
    simp only [hunion, Bool.false_eq_true, false_and, false_or]

theorem mem_revivalMethods {m : Method} (h : m ∈ model.revivalMethods d) :
    m = d.fromDataFn ∨ m = model.fromData d ∨ m = model.fromDataUnion d ∨ m ∈ d.methods := by
  rcases mem_revivalMethods_iff.mp h with ⟨-, h⟩ | h | ⟨-, h⟩ | h
  · exact .inl h
  · exact .inr (.inl h)
  · exact .inr (.inr (.inl h))
  · exact .inr (.inr (.inr h))

/-- A copy function that is a name is the parameter of a type variable. -/
theorem name?_copyFunction {t : TypeExpr} {name : String}
    (h : (model.copyFunction t).name? = some name) : ∃ v, name = constructorName v := by
  induction t using TypeExpr.partsInduction with
  | step t ih =>
    cases t with
    | reference symbol args =>
      cases args <;> rw [copyFunction] at h <;> split at h <;> cases h
    | optional inner => exact ih inner (by simp [TypeExpr.parts]) h
    | var v => exact ⟨v, (Option.some.inj h).symm⟩
    | _ => cases h

section Code

variable {voc : CodeVocabulary} (hvoc : model.Revives voc)

include hvoc

theorem Revives.within_bare (hd : d ∈ model.data) : (TypeExpr.bare d.symbol).Within voc.types :=
  TypeExpr.within_reference.mpr ⟨hvoc.symbol d hd _, by simp⟩

theorem Revives.within_selfType (hd : d ∈ model.data) : d.selfType.Within voc.types :=
  TypeExpr.within_reference.mpr ⟨hvoc.symbol d hd _, by simp [hvoc.var]⟩

theorem Revives.within_identityOf {t : TypeExpr} (ht : t.Within voc.types) :
    (identityOf t).Within voc := by
  have hname : voc.callable identityName := hvoc.helper _ (by decide)
  simp [identityOf, Expression.name?, ht, hname]

theorem Revives.within_applyHelper {name : String} (hname : name ∈ Helper.copyFunctions.functions)
    {argument : Expression} (hargument : argument.Within voc) :
    (Expression.apply (.identifier name) [argument]).Within voc := by
  simp [Expression.name?, hvoc.helper name hname, hargument]

/-- The code that copies values of a type mentions parts of the type and declarations of the
model. -/
theorem within_copyFunction {t : TypeExpr} (ht : t.Within voc.types) :
    (model.copyFunction t).Within voc := by
  induction t using TypeExpr.partsInduction with
  | step t ih =>
    have hidentity := hvoc.within_identityOf ht
    have hparts := (TypeExpr.within_iff.mp ht).2
    cases t with
    | reference symbol args =>
      cases args with
      | nil =>
        rw [copyFunction]
        split
        case h_1 d hfound => simpa using hvoc.within_bare (mem_of_revivable? hfound)
        case h_2 => exact hidentity
      | cons arg args =>
        rw [copyFunction]
        split
        case h_1 d hfound =>
          have hd := mem_of_revivable? (Option.filter_eq_some_iff.mp hfound).1
          have hcopies : ∀ a ∈ model.copyFunctions (arg :: args), a.Within voc := by
            rw [copyFunctions_eq_map, List.forall_mem_map]
            exact fun a ha => ih a ha (hparts a ha)
          refine Expression.within_call.mpr ⟨hparts, nofun, ?_, hcopies⟩
          simpa using hvoc.within_bare hd
        case h_2 => exact hidentity
    | array element =>
      have helement := ih element (by simp [TypeExpr.parts]) (by simpa using ht)
      exact hvoc.within_applyHelper (by decide) helement
    | indexed key value =>
      have hvalue := ih value (by simp [TypeExpr.parts]) (TypeExpr.within_indexed.mp ht).2
      exact hvoc.within_applyHelper (by decide) hvalue
    | optional inner => exact ih inner (by simp [TypeExpr.parts]) (by simpa using ht)
    | var name => exact Expression.within_identifier
    | _ => exact hidentity

theorem within_copyProperty {p : Property} (hp : p.type.Within voc.types) :
    ∀ e ∈ (model.copyProperty p).expressions, e.Within voc := by
  have hcopy := within_copyFunction hvoc hp
  have hcalled : ∀ name ∈ (model.copyFunction p.type).name?, voc.callable name := by
    intro name hname
    obtain ⟨v, rfl⟩ := name?_copyFunction hname
    exact hvoc.parameter v
  simp only [copyProperty, Statement.expressions, List.forall_mem_singleton,
    Expression.within_assign, Expression.within_member, Expression.within_identifier, true_and]
  split
  · simp
  · simpa using ⟨hcalled, hcopy⟩

theorem codeWithin_fromDataFn (hd : d ∈ model.data) : d.fromDataFn.CodeWithin voc := by
  have hself := hvoc.within_bare hd
  simp [Method.CodeWithin, DataDeclaration.fromDataFn, DataDeclaration.staticMethod,
    Statement.expressions, Expression.name?, hself]

theorem codeWithin_fromData (hd : d ∈ model.data) (hproperties : d.PropertiesWithin voc.types) :
    (model.fromData d).CodeWithin voc := by
  have hself := hvoc.within_selfType hd
  have hcopies : ∀ properties ⊆ d.properties,
      StatementsWithin voc (properties.map model.copyProperty) := by
    intro properties hsub e he
    obtain ⟨s, hs, he⟩ := List.mem_flatMap.mp he
    obtain ⟨p, hp, rfl⟩ := List.mem_map.mp hs
    exact within_copyProperty hvoc (hproperties p (hsub hp)) e he
  simp only [Method.CodeWithin, fromData, DataDeclaration.staticMethod, Option.getD_some,
    statementsWithin_append]
  refine ⟨⟨⟨?_, ?_⟩, hcopies _ List.filter_sublist.subset⟩, ?_⟩
  · simp [Statement.returnIfAbsent, Statement.expressions, hself]
  · split <;> simp [Statement.expressions, Expression.name?]
  · simp [Statement.expressions]

theorem codeWithin_fromDataUnion : (model.fromDataUnion d).CodeWithin voc := by
  simp only [Method.CodeWithin, fromDataUnion, Option.getD_some, statementsWithin_cons,
    statementsWithin_nil, and_true]
  refine ⟨by simp [Statement.returnIfAbsent, Statement.expressions], ?_⟩
  simp only [Statement.expressions, Statement.expressionsCases_eq_flatMap, List.forall_mem_cons,
    List.forall_mem_flatMap, Expression.within_member, Expression.within_identifier, true_and]
  intro c hc
  obtain ⟨member, hmember, hcase⟩ := List.mem_filterMap.mp hc
  obtain ⟨entity, -, hfound⟩ := List.mem_filterMap.mp hmember
  obtain ⟨value, -, rfl⟩ := Option.map_eq_some_iff.mp hcase
  have htype := hvoc.within_bare (List.mem_of_find?_eq_some hfound)
  simp [Statement.expressions, Expression.name?, htype]

/-- The code of the methods of revival mentions the types of properties and calls copy functions. -/
theorem codeWithin_of_mem_revivalMethods (hd : d ∈ model.data)
    (hproperties : d.PropertiesWithin voc.types) (hold : ∀ m ∈ d.methods, m.CodeWithin voc) :
    ∀ m ∈ model.revivalMethods d, m.CodeWithin voc := by
  intro m hm
  rcases mem_revivalMethods hm with rfl | rfl | rfl | hm
  · exact codeWithin_fromDataFn hvoc hd
  · exact codeWithin_fromData hvoc hd hproperties
  · exact codeWithin_fromDataUnion hvoc
  · exact hold m hm

end Code

section Types

variable {voc : Vocabulary}

theorem within_selfType (hsymbol : voc.symbol d.symbol d.typeParameters.length) :
    d.selfType.Within (voc.binding d.typeParameters) := by
  refine TypeExpr.within_reference.mpr ⟨by simpa using hsymbol, ?_⟩
  simpa using fun v hv => Or.inr hv

theorem within_constructorParameters :
    ∀ p ∈ d.constructorParameters, p.type.Within (voc.binding d.typeParameters) := by
  simpa [DataDeclaration.constructorParameters] using fun v hv => Or.inr hv

/-- The types of the methods of revival refer to the class and to the alias of its union. -/
theorem within_of_mem_revivalMethods (hsymbol : voc.symbol d.symbol d.typeParameters.length)
    (halias : ∀ s ∈ d.unionAlias, voc.symbol s 0) (hold : ∀ m ∈ d.methods, m.Within voc) :
    ∀ m ∈ model.revivalMethods d, m.Within voc := by
  have hself := within_selfType hsymbol
  intro m hm
  rcases mem_revivalMethods hm with rfl | rfl | rfl | hm
  case inl => exact ⟨within_constructorParameters, TypeExpr.within_function.mpr ⟨by simpa, hself⟩⟩
  case inr.inl =>
    refine ⟨fun p hp => ?_, hself⟩
    rcases List.mem_append.mp hp with hp | hp
    · rcases List.mem_cons.mp hp with rfl | hp
      · exact hself
      · exact within_constructorParameters p hp
    · rw [List.mem_singleton.mp hp]
      exact TypeExpr.within_orAbsent.mpr hself
  case inr.inr.inl =>
    have hunion : ((d.unionAlias.map TypeExpr.bare).getD .any).Within (voc.binding []) := by
      cases h : d.unionAlias with
      | none => exact TypeExpr.within_any
      | some s => exact TypeExpr.within_reference.mpr ⟨halias s h, by simp⟩
    exact ⟨by simpa [fromDataUnion], hunion⟩
  case inr.inr.inr hm => exact hold m hm

end Types

/-! ## Revived models -/

@[simp] theorem data_withHelper (model : Model) (helper : Helper) :
    (model.withHelper helper).data = model.data := by
  unfold withHelper
  split <;> rfl

@[simp] theorem aliases_withHelper (model : Model) (helper : Helper) :
    (model.withHelper helper).aliases = model.aliases := by
  unfold withHelper
  split <;> rfl

@[simp] theorem enums_withHelper (model : Model) (helper : Helper) :
    (model.withHelper helper).enums = model.enums := by
  unfold withHelper
  split <;> rfl

@[simp] theorem inlinedEnums_withHelper (model : Model) (helper : Helper) :
    (model.withHelper helper).inlinedEnums = model.inlinedEnums := by
  unfold withHelper
  split <;> rfl

theorem mem_helpers_withHelper {helper other : Helper} :
    other ∈ (model.withHelper helper).helpers ↔ other = helper ∨ other ∈ model.helpers := by
  unfold withHelper
  split
  case isTrue h => grind
  case isFalse => simp [or_comm]

@[simp] theorem frames_withRevival : model.withRevival.frames = model.frames := by
  have h : model.withRevival.frames = (model.withHelper .copyFunctions).frames :=
    frames_map fun d => by split <;> rfl
  rw [h, frames, data_withHelper, frames]

/-- A declaration of a revived model is one that was there, or has the methods of revival. -/
theorem mem_withRevival {d' : DataDeclaration} (h : d' ∈ model.withRevival.data) :
    ∃ d ∈ model.data, d' = d ∨
      d' = { d with methods := (model.withHelper .copyFunctions).revivalMethods d } := by
  obtain ⟨d, hd, rfl⟩ := List.mem_map.mp h
  rw [data_withHelper] at hd
  refine ⟨d, hd, ?_⟩
  split
  · exact .inr rfl
  · exact .inl rfl

theorem PropertiesWithin.withRevival {scope : DataDeclaration → Vocabulary}
    (h : model.PropertiesWithin scope) : model.withRevival.PropertiesWithin scope := by
  intro d' hd'
  obtain ⟨d, hd, rfl | rfl⟩ := mem_withRevival hd'
  · exact h _ hd
  · exact h d hd

theorem MembersWithin.withRevival {scope : DataDeclaration → Vocabulary}
    (h : model.MembersWithin scope)
    (hsymbol : ∀ d ∈ model.data, ∀ n, (scope d.frame).symbol d.symbol n)
    (halias : ∀ d ∈ model.data, ∀ s ∈ d.unionAlias, (scope d.frame).symbol s 0) :
    model.withRevival.MembersWithin scope := by
  intro d' hd'
  obtain ⟨d, hd, rfl | rfl⟩ := mem_withRevival hd'
  · exact h _ hd
  · exact ⟨within_of_mem_revivalMethods (hsymbol d hd _) (halias d hd) (h d hd).methods,
      (h d hd).ctor⟩

theorem CodeWithin.withRevival {voc : CodeVocabulary} (h : model.CodeWithin voc)
    (hvoc : model.Revives voc) (hproperties : model.PropertiesWithin fun _ => voc.types) :
    model.withRevival.CodeWithin voc := by
  have hvoc' : (model.withHelper .copyFunctions).Revives voc :=
    { hvoc with symbol := by simpa using hvoc.symbol }
  intro d' hd'
  obtain ⟨d, hd, rfl | rfl⟩ := mem_withRevival hd'
  · exact h _ hd
  · obtain ⟨hmethods, hctor⟩ := DataDeclaration.codeWithin_iff.mp (h d hd)
    refine DataDeclaration.codeWithin_iff.mpr ⟨?_, hctor⟩
    exact codeWithin_of_mem_revivalMethods hvoc' (by simpa using hd) (hproperties d hd) hmethods

theorem UnionsDeclared.withRevival (h : model.UnionsDeclared) :
    model.withRevival.UnionsDeclared := by
  intro d' hd'
  have haliases : model.withRevival.aliases = model.aliases := aliases_withHelper model _
  rw [haliases]
  obtain ⟨d, hd, rfl | rfl⟩ := mem_withRevival hd'
  · exact h _ hd
  · exact h d hd

end Model

end Typings
