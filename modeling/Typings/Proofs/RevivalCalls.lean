import Typings.Proofs.Code.Uses
import Typings.Proofs.RevivedProperties
import Typings.Proofs.ServiceTypes

/-!
# Calls of revival functions

The functions that revive classes call each other: those of parents, of the members of unions, and
of the classes in the types of properties and of responses. Which function is called, and with which
arguments, is chosen at the call by the type that is copied, while the parameters follow from the
class that is called. The two agree for copy functions of generic classes that are given as many
type arguments as the class has parameters. The call of the parent passes no copy functions, and a
union calls its members with data alone, so they agree there if the class that is called has no type
parameters.

## Main definitions

* `Model.Declares`: a class of a model has a symbol and a number of type parameters.
* `Model.CopyFits`: the classes that values of a type are copied through are given their type
  arguments.
* `Model.RevivalFits`, `Model.ContentFits`: what the calls of a model depend on.

## Main results

* `usesAnswered_compile_iff`: all calls fit if and only if these conditions hold.
-/

namespace Typings

/-- Declarations without code use nothing. -/
theorem DataDeclaration.uses_eq_nil {d : DataDeclaration}
    (hmethods : ∀ m ∈ d.methods, m.body = none) (hctor : d.ctor = none) : d.uses = [] := by
  unfold uses
  rw [hctor, Option.toList_none, List.flatMap_nil, List.append_nil, List.flatMap_eq_nil_iff]
  intro m hm
  rw [Method.uses, hmethods m hm]
  rfl

def TypeExpr.arguments : TypeExpr → List TypeExpr
  | reference _ args => args
  | _ => []

/-! ## What copying depends on -/

namespace Model

variable {model model' : Model} {d : DataDeclaration} {u : ClassUse}

section Map

variable {g : DataDeclaration → DataDeclaration} (hdata : model'.data = model.data.map g)
  (hframe : ∀ d, (g d).frame = d.frame) (halias : ∀ d, (g d).unionAlias = d.unionAlias)

include hdata hframe halias

theorem revivable?_map (s : Symbol) : model'.revivable? s = (model.revivable? s).map g := by
  have hsymbol : ∀ d, (g d).symbol = d.symbol := fun d => congrArg (·.symbol) (hframe d)
  have hclass : ∀ d, (g d).isClass = d.isClass := fun d => congrArg (·.isClass) (hframe d)
  unfold revivable?
  rw [hdata, List.find?_map]
  simp only [Function.comp_def, hsymbol, halias]
  cases model.data.find? fun d => d.symbol == s || d.unionAlias == some s with
  | none => rfl
  | some d => simp only [Option.map_some, Option.filter_some, hclass]; split <;> rfl

theorem revivableGeneric?_map (s : Symbol) :
    model'.revivableGeneric? s = (model.revivableGeneric? s).map g := by
  have hsymbol : ∀ d, (g d).symbol = d.symbol := fun d => congrArg (·.symbol) (hframe d)
  have hparameters : ∀ d, (g d).typeParameters = d.typeParameters :=
    fun d => congrArg (·.typeParameters) (hframe d)
  unfold revivableGeneric?
  rw [revivable?_map hdata hframe halias]
  cases model.revivable? s with
  | none => rfl
  | some d => simp only [Option.map_some, Option.filter_some, hsymbol, hparameters]; split <;> rfl

/-- How values are copied depends on the frames of classes and on the aliases of their unions. -/
theorem copyFunction_map (t : TypeExpr) : model'.copyFunction t = model.copyFunction t := by
  have hsymbol : ∀ d, (g d).symbol = d.symbol := fun d => congrArg (·.symbol) (hframe d)
  induction t using TypeExpr.partsInduction with
  | step t ih =>
    cases t with
    | reference symbol args =>
      cases args with
      | nil =>
        rw [copyFunction, copyFunction, revivable?_map hdata hframe halias]
        cases model.revivable? symbol with
        | none => rfl
        | some d => simp only [Option.map_some, hsymbol, halias]
      | cons arg args =>
        have hcopies : model'.copyFunction arg :: model'.copyFunctions args =
            model.copyFunction arg :: model.copyFunctions args := by
          rw [copyFunctions_eq_map, copyFunctions_eq_map, ← List.map_cons, ← List.map_cons]
          exact List.map_congr_left fun a ha => ih a ha
        rw [copyFunction, copyFunction, revivableGeneric?_map hdata hframe halias]
        cases model.revivableGeneric? symbol with
        | none => rfl
        | some d => simp only [Option.map_some, hsymbol, hcopies]
    | array element => rw [copyFunction, copyFunction, ih element (by simp [TypeExpr.parts])]
    | indexed key value => rw [copyFunction, copyFunction, ih value (by simp [TypeExpr.parts])]
    | optional inner => rw [copyFunction, copyFunction, ih inner (by simp [TypeExpr.parts])]
    | _ => rfl

end Map

/-- The functions of a class depend on the declarations only. -/
theorem revivalMethods_eq_of_data (hdata : model'.data = model.data) (d : DataDeclaration) :
    model'.revivalMethods d = model.revivalMethods d := by
  have hcopy : model'.copyFunction = model.copyFunction := by
    funext t
    exact copyFunction_map (g := id) (by rw [hdata, List.map_id]) (fun _ => rfl) (fun _ => rfl) t
  have hproperty : model'.copyProperty = model.copyProperty := by
    funext p
    unfold copyProperty
    rw [hcopy]
  have horigin : model'.findOrigin? = model.findOrigin? := by
    funext entity
    unfold findOrigin?
    rw [hdata]
  have hfrom : model'.fromData d = model.fromData d := by
    unfold fromData
    simp only [hproperty, type?_inherited, walk_eq_of_data hdata]
  have hunion : model'.fromDataUnion d = model.fromDataUnion d := by
    unfold fromDataUnion
    rw [horigin]
  unfold revivalMethods
  rw [hfrom, hunion]

/-! ## The parameters of the functions -/

theorem roles_fromData (model : Model) (d : DataDeclaration) :
    (model.fromData d).roles =
      some .data :: (d.typeParameters.map fun _ => some .copier) ++ [some .target] := by
  simp [Method.roles, fromData, DataDeclaration.staticMethod, DataDeclaration.constructorParameters,
    DataDeclaration.selfType, TypeExpr.orAbsent, TypeExpr.isOptional, Parameter.role,
    Function.comp_def]

theorem roles_fromDataFn (d : DataDeclaration) :
    d.fromDataFn.roles = d.typeParameters.map fun _ => some .copier := by
  simp [Method.roles, DataDeclaration.fromDataFn, DataDeclaration.staticMethod,
    DataDeclaration.constructorParameters, Parameter.role, Function.comp_def]

theorem roles_fromDataUnion (model : Model) (d : DataDeclaration) :
    (model.fromDataUnion d).roles = [some .data] := by
  cases h : d.unionAlias <;> simp [Method.roles, fromDataUnion, Parameter.role, h, TypeExpr.bare]

/-- A function takes data and nothing else, or data and the instance, if its class is not
generic. -/
theorem accepts_fromData_iff {rest : List (Option ArgumentRole)}
    (hrest : rest = [] ∨ rest = [some .target]) :
    (model.fromData d).Accepts (some .data :: rest) ↔ d.typeParameters = [] := by
  unfold Method.Accepts
  rw [roles_fromData]
  cases htypes : d.typeParameters with
  | nil =>
    refine iff_of_true ?_ rfl
    rcases hrest with rfl | rfl
    · exact .inr rfl
    · exact .inl rfl
  | cons v vs =>
    refine iff_of_false ?_ (List.cons_ne_nil _ _)
    rcases hrest with rfl | rfl <;> simp

theorem accepts_fromDataFn_iff {types : List TypeExpr} :
    d.fromDataFn.Accepts (types.map fun _ => some .copier) ↔
      d.typeParameters.length = types.length := by
  unfold Method.Accepts
  rw [roles_fromDataFn]
  have hends : (d.typeParameters.map fun _ => some ArgumentRole.copier) ≠
      (types.map fun _ => some ArgumentRole.copier) ++ [some .target] := by
    intro h
    have hmem :
        some ArgumentRole.target ∈ d.typeParameters.map fun _ => some ArgumentRole.copier := by
      rw [h]
      simp
    simp at hmem
  rw [or_iff_left hends]
  simp only [List.map_const', List.replicate_inj, or_true, and_true]

/-! ## Which uses are answered -/

/-- Whether a class of the model has a symbol and a number of type parameters. -/
def Declares (model : Model) (s : Symbol) (n : Nat) : Prop :=
  ∃ X ∈ model.data, X.isDataClass = true ∧ X.symbol = s ∧ X.typeParameters.length = n

section Answered

variable (hempty : ∀ d ∈ model.data, d.methods = [])

include hempty

/-- The functions that revival gives to a class are its only methods. -/
theorem exists_method_revived_iff {P : Method → Prop} (hd : d ∈ model.data)
    (hclass : d.isDataClass = true) :
    (∃ m ∈ (model.revived d).methods, P m) ↔ (d.typeParameters ≠ [] ∧ P d.fromDataFn) ∨
      P (model.fromData d) ∨ d.unionAlias.isSome = true ∧ P (model.fromDataUnion d) := by
  have hmethods : (model.revived d).methods = model.revivalMethods d := by
    unfold revived
    rw [if_pos hclass]
    exact revivalMethods_eq_of_data (data_withHelper model _) d
  simp only [hmethods, mem_revivalMethods_iff, hempty d hd, List.not_mem_nil, or_false]
  constructor
  · rintro ⟨m, ⟨hgeneric, rfl⟩ | rfl | ⟨hunion, rfl⟩, hm⟩
    · exact .inl ⟨hgeneric, hm⟩
    · exact .inr (.inl hm)
    · exact .inr (.inr ⟨hunion, hm⟩)
  · rintro (⟨hgeneric, hm⟩ | hm | ⟨hunion, hm⟩)
    · exact ⟨_, .inl ⟨hgeneric, rfl⟩, hm⟩
    · exact ⟨_, .inr (.inl rfl), hm⟩
    · exact ⟨_, .inr (.inr ⟨hunion, rfl⟩), hm⟩

/-- A use is answered by the functions that revival gives to a class. -/
theorem answered_revived_iff :
    Answered (model.data.map model.revived) d u ↔
      ∃ X ∈ model.data, X.isDataClass = true ∧ d.named? u.owner = some X.symbol ∧
        ((X.typeParameters ≠ [] ∧ u.function = "fromDataFn" ∧ X.fromDataFn.Accepts u.roles) ∨
          (u.function = "fromData" ∧ (model.fromData X).Accepts u.roles) ∨
          X.unionAlias.isSome = true ∧ u.function = "fromDataUnion" ∧
            (model.fromDataUnion X).Accepts u.roles) := by
  unfold Answered
  simp only [List.mem_map, exists_exists_and_eq_and]
  refine exists_congr fun X => and_congr_right fun hX => ?_
  rw [isDataClass_revived]
  refine and_congr_right fun hclass => ?_
  have hsymbol : (model.revived X).symbol = X.symbol := congrArg (·.symbol) (frame_revived X)
  rw [hsymbol, exists_method_revived_iff hempty hX hclass]
  simp only [DataDeclaration.fromDataFn, fromData, fromDataUnion, DataDeclaration.staticMethod,
    true_and, eq_comm]

/-- A call with data, and maybe the instance, is answered by a class without type parameters. -/
theorem answered_fromData_iff {owner : Expression} {rest : List (Option ArgumentRole)}
    (hrest : rest = [] ∨ rest = [some .target]) :
    Answered (model.data.map model.revived) d ⟨owner, "fromData", some .data :: rest⟩ ↔
      ∃ s, d.named? owner = some s ∧ model.Declares s 0 := by
  rw [answered_revived_iff hempty]
  simp only [accepts_fromData_iff hrest]
  constructor
  · rintro ⟨X, hX, hclass, hnamed, ⟨-, hname, -⟩ | ⟨-, hplain⟩ | ⟨-, hname, -⟩⟩
    · exact absurd hname (by decide)
    · exact ⟨X.symbol, hnamed, X, hX, hclass, rfl, by rw [hplain, List.length_nil]⟩
    · exact absurd hname (by decide)
  · rintro ⟨_, hnamed, X, hX, hclass, rfl, hlength⟩
    exact ⟨X, hX, hclass, hnamed, .inr (.inl ⟨trivial, List.length_eq_zero_iff.mp hlength⟩)⟩

/-- A copy function of a generic class is answered by a class with as many type parameters. -/
theorem answered_fromDataFn_iff {s : Symbol} {types : List TypeExpr} (hne : types ≠ []) :
    Answered (model.data.map model.revived) d
        ⟨.typeName (.bare s), "fromDataFn", types.map fun _ => some .copier⟩ ↔
      model.Declares s types.length := by
  rw [answered_revived_iff hempty]
  simp only [accepts_fromDataFn_iff]
  constructor
  · rintro ⟨X, hX, hclass, hnamed, ⟨-, -, hlength⟩ | ⟨hname, -⟩ | ⟨-, hname, -⟩⟩
    · exact ⟨X, hX, hclass, (Option.some.inj hnamed).symm, hlength⟩
    · exact absurd hname (by decide)
    · exact absurd hname (by decide)
  · rintro ⟨X, hX, hclass, rfl, hlength⟩
    refine ⟨X, hX, hclass, rfl, .inl ⟨?_, trivial, hlength⟩⟩
    intro hnil
    rw [hnil, List.length_nil] at hlength
    exact hne (List.length_eq_zero_iff.mp hlength.symm)

/-- The function of a union is answered by a class that is the base of one. -/
theorem answered_fromDataUnion {X : DataDeclaration} (hX : X ∈ model.data)
    (hclass : X.isDataClass = true) (hunion : X.unionAlias.isSome = true) :
    Answered (model.data.map model.revived) d
      ⟨.typeName (.bare X.symbol), "fromDataUnion", [some .data]⟩ := by
  rw [answered_revived_iff hempty]
  refine ⟨X, hX, hclass, rfl, .inr (.inr ⟨hunion, rfl, .inl ?_⟩)⟩
  exact roles_fromDataUnion model X

/-- A generic class answers the copy function that is made of it. -/
theorem answered_fromDataFn_self (hd : d ∈ model.data) (hclass : d.isDataClass = true) :
    Answered (model.data.map model.revived) d
      ⟨.typeName (.bare d.symbol), "fromData",
        some .data :: d.typeParameters.map fun _ => some .copier⟩ := by
  rw [answered_revived_iff hempty]
  refine ⟨d, hd, hclass, rfl, .inr (.inl ⟨rfl, .inr ?_⟩)⟩
  rw [roles_fromData]

end Answered

/-! ## What the functions use -/

/-- What is copied by returning it uses no class. -/
theorem uses_eq_nil_of_isCallOf {t : TypeExpr}
    (h : (model.copyFunction t).isCallOf identityName = true) :
    (model.copyFunction t).uses = [] := by
  induction t using TypeExpr.partsInduction with
  | step t ih =>
    cases t with
    | reference symbol args =>
      cases args with
      | nil | cons _ _ =>
        rw [copyFunction] at h ⊢
        split at h
        · cases h
        · exact uses_identityOf _
    | optional inner =>
      rw [copyFunction] at h ⊢
      exact ih inner (by simp [TypeExpr.parts]) h
    | array _ =>
      have hsame : ("__getCopyArrayFn" == identityName) = true := h
      exact absurd hsame (by decide)
    | indexed _ _ =>
      have hsame : ("__getCopyObjectFn" == identityName) = true := h
      exact absurd hsame (by decide)
    | var _ => cases h
    | _ => exact uses_identityOf _

theorem mem_uses_copyProperty {p : Property} :
    (∃ e ∈ (model.copyProperty p).expressions, u ∈ e.uses) ↔
      u ∈ (model.copyFunction p.type).uses := by
  have hassign : ∀ value : Expression,
      u ∈ (Expression.assign (.member (.identifier "instance") p.name) value).uses ↔
        u ∈ value.uses := by
    intro value
    rw [Expression.mem_uses_of_operands rfl rfl rfl]
    simp [Expression.parts]
  simp only [copyProperty, Statement.expressions, List.mem_singleton, exists_eq_left, hassign]
  split
  case isTrue hidentity =>
    rw [Expression.uses_memberIdentifier, uses_eq_nil_of_isCallOf hidentity]
  case isFalse => exact Expression.mem_uses_applyData rfl rfl

/-- A class uses the function of its parent, and the classes that its own properties are copied
through. -/
theorem mem_uses_fromData :
    u ∈ (model.fromData d).uses ↔
      (d.parent.isSome = true ∧ u = ⟨.super, "fromData", [some .data, some .target]⟩) ∨
        ∃ p ∈ model.ownCopies d, u ∈ (model.copyFunction p.type).uses := by
  have hstart : codeUses [.returnIfAbsent "data",
      .constant "instance" (.or (.identifier "target") (.create d.selfType []))] = [] := rfl
  have hend : codeUses [.returns (some (.identifier "instance"))] = [] := rfl
  have hparent : u ∈ codeUses (if d.parent.isSome then
      [.perform (.apply (.member .super "fromData") [.identifier "data", .identifier "instance"])]
      else []) ↔ d.parent.isSome = true ∧ u = ⟨.super, "fromData", [some .data, some .target]⟩ := by
    split
    case isTrue h =>
      have hsuper : Expression.super.isClass = true := rfl
      simp [h, codeUses, Statement.expressions, Expression.apply,
        Expression.mem_uses_callMember hsuper, Expression.role?]
    case isFalse h => simp [h, codeUses]
  have hcopies : u ∈ codeUses ((model.ownCopies d).map model.copyProperty) ↔
      ∃ p ∈ model.ownCopies d, u ∈ (model.copyFunction p.type).uses := by
    simp only [codeUses, List.mem_flatMap, List.mem_map, exists_exists_and_eq_and,
      mem_uses_copyProperty]
  have happend : ∀ a b : List Statement, codeUses (a ++ b) = codeUses a ++ codeUses b :=
    fun _ _ => List.flatMap_append
  show u ∈ codeUses (_ ++ _ ++ _ ++ _) ↔ _
  rw [happend, happend, happend, hstart, hend, List.nil_append, List.append_nil, List.mem_append,
    hparent]
  exact or_congr_right hcopies

theorem mem_uses_fromDataFn :
    u ∈ d.fromDataFn.uses ↔ u = ⟨.typeName (.bare d.symbol), "fromData",
      some .data :: d.typeParameters.map fun _ => some .copier⟩ := by
  have hclass : (Expression.typeName (.bare d.symbol)).isClass = true := rfl
  have harrow : ∀ body : Expression, u ∈ (Expression.arrow [("data", none)] body).uses ↔
      u ∈ body.uses := by
    intro body
    rw [Expression.mem_uses_of_operands rfl rfl rfl]
    simp [Expression.parts]
  have hroles : (d.constructorParameters.map fun p => Expression.identifier p.name).map
      Expression.role? = d.typeParameters.map fun _ => some .copier := by
    simp only [DataDeclaration.constructorParameters, List.map_map]
    apply List.map_congr_left
    intro v _
    obtain ⟨hdata, hinstance⟩ := constructorName_ne v
    simp [Expression.role?, hdata, hinstance]
  simp only [Method.uses, DataDeclaration.fromDataFn, DataDeclaration.staticMethod, codeUses,
    Statement.expressions, Option.getD_some, List.flatMap_singleton, Option.toList_some, harrow,
    Expression.apply, Expression.mem_uses_callMember hclass, List.map_cons, hroles]
  simp [Expression.role?]

/-- A union uses the functions of those members that its discriminant tells apart. -/
theorem mem_uses_fromDataUnion :
    u ∈ (model.fromDataUnion d).uses ↔ ∃ entity ∈ d.unionMembers, ∃ member,
      model.findOrigin? entity = some member ∧ member.discriminantLiteral.isSome = true ∧
        u = ⟨.typeName (.bare member.symbol), "fromData", [some .data]⟩ := by
  have hreturn : ∀ member : DataDeclaration, u ∈ (Expression.apply
      (.member (.typeName (.bare member.symbol)) "fromData") [.identifier "data"]).uses ↔
        u = ⟨.typeName (.bare member.symbol), "fromData", [some .data]⟩ := by
    intro member
    rw [Expression.mem_uses_applyData rfl rfl, Expression.uses_memberClass rfl, List.mem_singleton]
  have hswitch : ∀ (name : String) (cases : List (Expression × List Statement)),
      codeUses [.returnIfAbsent "data", .switch (.member (.identifier "data") name) cases] =
        cases.flatMap fun c => c.1.uses ++ codeUses c.2 := by
    intro name cases
    have habsent : (Statement.returnIfAbsent "data").expressions.flatMap (·.uses) = [] := rfl
    simp only [codeUses, List.flatMap_cons, habsent, List.flatMap_nil, List.nil_append,
      List.append_nil, Statement.expressions, Statement.expressionsCases_eq_flatMap,
      Expression.uses_memberIdentifier, List.flatMap_assoc]
  have hcase : ∀ member : DataDeclaration, codeUses [.returns (some (.apply
      (.member (.typeName (.bare member.symbol)) "fromData") [.identifier "data"]))] =
        (Expression.apply (.member (.typeName (.bare member.symbol)) "fromData")
          [.identifier "data"]).uses := by
    intro member
    simp [codeUses, Statement.expressions]
  unfold Method.uses fromDataUnion
  rw [Option.getD_some, hswitch, List.mem_flatMap]
  simp only [List.mem_append]
  constructor
  · rintro ⟨c, hc, hu⟩
    obtain ⟨member, hmember, hc⟩ := List.mem_filterMap.mp hc
    obtain ⟨entity, hentity, hfound⟩ := List.mem_filterMap.mp hmember
    obtain ⟨value, hvalue, rfl⟩ := Option.map_eq_some_iff.mp hc
    refine ⟨entity, hentity, member, hfound, by rw [hvalue, Option.isSome_some], ?_⟩
    rcases hu with hu | hu
    · exact absurd hu List.not_mem_nil
    · rw [hcase member] at hu
      exact (hreturn member).mp hu
  · rintro ⟨entity, hentity, member, hfound, hvalue, hu⟩
    obtain ⟨value, hvalue⟩ := Option.isSome_iff_exists.mp hvalue
    refine ⟨_, List.mem_filterMap.mpr ⟨member, List.mem_filterMap.mpr ⟨entity, hentity, hfound⟩,
      Option.map_eq_some_iff.mpr ⟨value, hvalue, rfl⟩⟩, .inr ?_⟩
    rw [hcase member]
    exact (hreturn member).mpr hu

/-! ## What the calls of a model depend on -/

/-- Whether the classes that values of a type are copied through are bases of unions, which are
copied without type arguments, or have as many type parameters as they are given type arguments. -/
def CopyFits (model : Model) (t : TypeExpr) : Prop :=
  ∀ X args, model.CopiedThrough t X args →
    X.unionAlias.isSome = true ∧ args = [] ∨ model.Declares X.symbol args.length

/-- What the calls in the functions of a class depend on. -/
structure RevivalFits (model : Model) (d : DataDeclaration) : Prop where
  /-- The parent is a class without type parameters. -/
  parent : ∀ t ∈ d.parent, ∃ s, t.referenced? = some s ∧ model.Declares s 0
  /-- So are the members of the union that a discriminant tells apart. -/
  members : d.unionAlias.isSome = true → ∀ entity ∈ d.unionMembers, ∀ member,
    model.findOrigin? entity = some member → member.discriminantLiteral.isSome = true →
      model.Declares member.symbol 0
  /-- The properties that are copied here are given their type arguments. -/
  copies : ∀ p ∈ model.ownCopies d, model.CopyFits p.type

/-- Whether the content of the responses of clients is given its type arguments. -/
def ContentFits (model : Model) : Prop :=
  ∀ d ∈ model.data, d.isClass = true → d.category = .service → ∀ m ∈ d.methods,
    ∀ t ∈ m.result.arguments, model.CopyFits t

section Revived

variable (hmethods : ∀ d ∈ model.data, d.methods = [])

include hmethods

/-- A class with an alias is the base of a union, so only other classes are to be counted. -/
theorem answered_copyUse_iff {X : DataDeclaration} {args : List TypeExpr}
    (hX : X.unionAlias.isSome = true →
      ∃ Y ∈ model.data, Y.isDataClass = true ∧ Y.symbol = X.symbol ∧ Y.unionAlias.isSome = true) :
    Answered (model.data.map model.revived) d (copyUse X args) ↔
      X.unionAlias.isSome = true ∧ args = [] ∨ model.Declares X.symbol args.length := by
  cases args with
  | nil =>
    unfold copyUse
    by_cases hunion : X.unionAlias.isSome = true
    · obtain ⟨Y, hY, hclass, hsymbol, halias⟩ := hX hunion
      rw [if_pos hunion, ← hsymbol]
      exact iff_of_true (answered_fromDataUnion hmethods hY hclass halias) (Or.inl ⟨hunion, rfl⟩)
    · rw [if_neg hunion, answered_fromData_iff hmethods (Or.inl rfl)]
      simp [hunion, DataDeclaration.named?, TypeExpr.referenced?]
  | cons arg args =>
    rw [or_iff_right (fun h => List.cons_ne_nil _ _ h.2)]
    exact answered_fromDataFn_iff hmethods (List.cons_ne_nil arg args)

/-- The uses of a revived class are those of its functions. -/
theorem mem_uses_revived (hctor : ∀ d ∈ model.data, d.ctor = none) (hd : d ∈ model.data) :
    u ∈ (model.revived d).uses ↔ d.isDataClass = true ∧
      ((d.typeParameters ≠ [] ∧ u ∈ d.fromDataFn.uses) ∨ u ∈ (model.fromData d).uses ∨
        d.unionAlias.isSome = true ∧ u ∈ (model.fromDataUnion d).uses) := by
  have hctor' : (model.revived d).ctor = none := by
    unfold revived
    split
    · exact hctor d hd
    · exact hctor d hd
  unfold DataDeclaration.uses
  rw [hctor', Option.toList_none, List.flatMap_nil, List.append_nil, List.mem_flatMap]
  by_cases hclass : d.isDataClass = true
  · rw [exists_method_revived_iff hmethods hd hclass, hclass, eq_self_iff_true, true_and]
  · have hkept : model.revived d = d := if_neg hclass
    simp [hkept, hmethods d hd, hclass]

/-- The code that copies values of a type in a later model with the same classes is answered if and
only if the type fits. -/
theorem answered_copyFunction_iff {later : Model}
    (hbase : ∀ X ∈ later.data, X.isClass = true → X.unionAlias.isSome = true → ∃ Y ∈ model.data,
      Y.isDataClass = true ∧ Y.symbol = X.symbol ∧ Y.unionAlias.isSome = true)
    (hdeclares : ∀ s n, later.Declares s n ↔ model.Declares s n) (t : TypeExpr) :
    (∀ u ∈ (later.copyFunction t).uses, Answered (model.data.map model.revived) d u) ↔
      later.CopyFits t := by
  have hcopy : ∀ X args, later.CopiedThrough t X args →
      (Answered (model.data.map model.revived) d (copyUse X args) ↔
        X.unionAlias.isSome = true ∧ args = [] ∨ later.Declares X.symbol args.length) := by
    intro X args hX
    obtain ⟨hmem, hclass⟩ := hX.mem_data
    rw [answered_copyUse_iff hmethods (hbase X hmem hclass), hdeclares]
  constructor
  · intro h X args hX
    exact (hcopy X args hX).mp (h _ (mem_uses_copyFunction.mpr ⟨X, args, hX, rfl⟩))
  · intro h u hu
    obtain ⟨X, args, hX, rfl⟩ := mem_uses_copyFunction.mp hu
    exact (hcopy X args hX).mpr (h X args hX)

/-- The call of the parent is answered if and only if the parent is a class without type
parameters. -/
theorem answered_super_iff {t : TypeExpr} (ht : t ∈ d.parent) :
    Answered (model.data.map model.revived) d ⟨.super, "fromData", [some .data, some .target]⟩ ↔
      ∃ s, t.referenced? = some s ∧ model.Declares s 0 := by
  rw [answered_fromData_iff hmethods (Or.inr rfl), DataDeclaration.named?, Option.mem_def.mp ht,
    Option.bind_some]

/-- The calls in the functions of a class are answered if and only if what they depend on holds. -/
theorem answered_uses_revived_iff (hctor : ∀ d ∈ model.data, d.ctor = none)
    (hcategory : ∀ d ∈ model.data, d.category = .data) (hd : d ∈ model.data)
    (hclass : d.isDataClass = true) :
    (∀ u ∈ (model.revived d).uses, Answered (model.data.map model.revived) d u) ↔
      model.RevivalFits d := by
  have hmember : ∀ s, Answered (model.data.map model.revived) d
      ⟨.typeName (.bare s), "fromData", [some .data]⟩ ↔ model.Declares s 0 := by
    intro s
    rw [answered_fromData_iff hmethods (Or.inl rfl)]
    simp [DataDeclaration.named?, TypeExpr.referenced?]
  have hcopy :
      ∀ t, (∀ u ∈ (model.copyFunction t).uses, Answered (model.data.map model.revived) d u) ↔
      model.CopyFits t :=
    answered_copyFunction_iff hmethods (fun X hX hclass hunion => ⟨X, hX, by
      simp [DataDeclaration.isDataClass, hclass, hcategory X hX], rfl, hunion⟩) fun _ _ => Iff.rfl
  constructor
  · intro h
    have hfunction : ∀ u, u ∈ (model.fromData d).uses →
        Answered (model.data.map model.revived) d u :=
      fun u hu => h u ((mem_uses_revived hmethods hctor hd).mpr ⟨hclass, .inr (.inl hu)⟩)
    refine ⟨fun t ht => ?_, fun hunion entity hentity member hfound hliteral => ?_, fun p hp => ?_⟩
    · have hparent : d.parent.isSome = true := Option.isSome_iff_exists.mpr ⟨t, ht⟩
      exact (answered_super_iff hmethods ht).mp
        (hfunction _ (mem_uses_fromData.mpr (Or.inl ⟨hparent, rfl⟩)))
    · have hused := mem_uses_fromDataUnion.mpr ⟨entity, hentity, member, hfound, hliteral, rfl⟩
      exact (hmember member.symbol).mp
        (h _ ((mem_uses_revived hmethods hctor hd).mpr ⟨hclass, .inr (.inr ⟨hunion, hused⟩)⟩))
    · exact (hcopy p.type).mp fun u hu => hfunction u (mem_uses_fromData.mpr (Or.inr ⟨p, hp, hu⟩))
  · intro hfits u hu
    obtain ⟨-, ⟨-, hu⟩ | hu | ⟨hunion, hu⟩⟩ := (mem_uses_revived hmethods hctor hd).mp hu
    · obtain rfl := mem_uses_fromDataFn.mp hu
      exact answered_fromDataFn_self hmethods hd hclass
    · rcases mem_uses_fromData.mp hu with ⟨hparent, rfl⟩ | ⟨p, hp, hu⟩
      · obtain ⟨t, ht⟩ := Option.isSome_iff_exists.mp hparent
        exact (answered_super_iff hmethods ht).mpr (hfits.parent t ht)
      · exact (hcopy p.type).mpr (hfits.copies p hp) u hu
    · obtain ⟨entity, hentity, member, hfound, hliteral, rfl⟩ := mem_uses_fromDataUnion.mp hu
      exact (hmember member.symbol).mpr (hfits.members hunion entity hentity member hfound hliteral)

end Revived

/-! ## What clients use -/

theorem mem_uses_contentCopy {content : TypeExpr} :
    u ∈ (model.contentCopy content).uses ↔ u ∈ (model.copyFunction content).uses := by
  unfold contentCopy
  split
  · rw [copyFunction, uses_identityOf, Expression.uses_undefined]
  · rfl

/-- Neither the address nor any other entry of a request uses a class. -/
theorem uses_requestEntries {service : Service} {endpoint : Endpoint} {e : Expression}
    (he : e ∈ (service.requestEntries endpoint).filterMap (·.2)) : u ∉ e.uses := by
  have haddress : u ∉ (service.address endpoint).uses := by
    unfold Service.address
    rw [Expression.mem_uses_of_operands rfl rfl rfl]
    rintro ⟨p, hp, hu⟩
    rcases List.mem_cons.mp hp with rfl | hp
    · exact absurd hu List.not_mem_nil
    · obtain ⟨piece, hpiece, hvalue⟩ := List.mem_filterMap.mp hp
      obtain ⟨part, -, rfl⟩ := List.mem_map.mp hpiece
      cases part with
      | literal _ => exact nomatch hvalue
      | parameter _ _ =>
        obtain rfl := Option.some.inj hvalue
        exact absurd hu List.not_mem_nil
  obtain ⟨entry, hentry, hvalue⟩ := List.mem_filterMap.mp he
  simp only [Service.requestEntries, List.mem_append, List.mem_cons, List.not_mem_nil,
    or_false] at hentry
  rcases hentry with (((rfl | rfl) | hentry) | hentry) | hentry
  · obtain rfl := Option.some.inj hvalue
    exact List.not_mem_nil
  · obtain rfl := Option.some.inj hvalue
    exact haddress
  · split at hentry
    · exact absurd hentry List.not_mem_nil
    · obtain rfl := List.mem_singleton.mp hentry
      obtain rfl := Option.some.inj hvalue
      exact List.not_mem_nil
  · obtain ⟨entity, -, rfl⟩ := List.mem_map.mp hentry
    obtain rfl := Option.some.inj hvalue
    exact List.not_mem_nil
  · split at hentry
    · obtain rfl := List.mem_singleton.mp hentry
      obtain rfl := Option.some.inj hvalue
      exact List.not_mem_nil
    · exact absurd hentry List.not_mem_nil

/-- A client method uses the classes that the content of its response is copied through. -/
theorem mem_uses_addCopyFunction {service : Service} {endpoint : Endpoint} {response : Symbol}
    {content : TypeExpr} {m : Method} (hbody : m.body = some (service.clientBody endpoint))
    (hresult : m.result = .reference response [content]) :
    u ∈ (model.addCopyFunction response m).uses ↔ u ∈ (model.copyFunction content).uses := by
  have hobject : ∀ entries, u ∈ (Expression.object entries).uses ↔
      ∃ e ∈ entries.filterMap (·.2), u ∈ e.uses := by
    intro entries
    exact Expression.mem_uses_of_operands rfl rfl rfl
  have hcall :
      ∀ e, u ∈ (Expression.call (.member (.member .self "httpClient") "request") [] [e]).uses ↔
      u ∈ e.uses := by
    intro e
    rw [Expression.mem_uses_call]
    simp [Expression.called?, Expression.isClass, Expression.nodes, Expression.ownUses,
      Expression.operands, Expression.parts, Expression.handedOver?]
  have hadded : (model.addCopyFunction response m).body = some [.returns (some (.call
      (.member (.member .self "httpClient") "request") []
      [.object (insertCopyFunction (model.contentCopy content)
        (service.requestEntries endpoint))]))] := by
    unfold addCopyFunction
    rw [hresult, hbody]
    simp [Service.clientBody, Expression.apply]
  unfold Method.uses
  rw [hadded, Option.getD_some]
  simp only [codeUses, Statement.expressions, List.flatMap_singleton, Option.toList_some, hcall,
    hobject]
  rw [← mem_uses_contentCopy]
  have hmem : ∀ e, e ∈ (insertCopyFunction (model.contentCopy content)
      (service.requestEntries endpoint)).filterMap (·.2) ↔ e = model.contentCopy content ∨
        e ∈ (service.requestEntries endpoint).filterMap (·.2) := by
    intro e
    have hsplit :=
      (service.requestEntries endpoint).takeWhile_append_dropWhile (p := (·.1 != "options"))
    conv_rhs => rw [← hsplit]
    simp only [insertCopyFunction, List.filterMap_append, List.filterMap_cons, List.mem_append,
      List.mem_cons]
    tauto
  constructor
  · rintro ⟨e, he, hu⟩
    rcases (hmem e).mp he with rfl | he
    · exact hu
    · exact absurd hu (uses_requestEntries he)
  · intro hu
    exact ⟨_, (hmem _).mpr (Or.inl rfl), hu⟩

/-! ## Models with services -/

/-- Whether a declaration is none of the revived classes, and copies the content of its responses if
it is a client. -/
structure IsAdded (served : Model) (n : DataDeclaration) : Prop where
  isDataClass : n.isDataClass = false
  unionAlias : n.unionAlias = none
  mem_uses : ∀ u, u ∈ n.uses ↔ n.isClass = true ∧ n.category = .service ∧
    ∃ m ∈ n.methods, ∃ t ∈ m.result.arguments, u ∈ (served.copyFunction t).uses

section Served

variable {served : Model} {added : List DataDeclaration}
  (hdata : served.data = model.data.map model.revived ++ added)
  (hadded : ∀ n ∈ added, served.IsAdded n)

include hdata hadded

theorem declares_served_iff {s : Symbol} {n : Nat} : served.Declares s n ↔ model.Declares s n := by
  have hframe : ∀ Y, (model.revived Y).frame = Y.frame := frame_revived
  unfold Declares
  rw [hdata]
  constructor
  · rintro ⟨X, hX, hclass, hsymbol, hlength⟩
    rcases List.mem_append.mp hX with hX | hX
    · obtain ⟨Y, hY, rfl⟩ := List.mem_map.mp hX
      rw [isDataClass_revived] at hclass
      exact ⟨Y, hY, hclass, (congrArg (·.symbol) (hframe Y)).symm.trans hsymbol,
        (congrArg (·.typeParameters.length) (hframe Y)).symm.trans hlength⟩
    · rw [(hadded X hX).isDataClass] at hclass
      exact nomatch hclass
  · rintro ⟨Y, hY, hclass, hsymbol, hlength⟩
    refine ⟨model.revived Y, List.mem_append_left _ (List.mem_map_of_mem hY), ?_, ?_, ?_⟩
    · rw [isDataClass_revived, hclass]
    · exact (congrArg (·.symbol) (hframe Y)).trans hsymbol
    · exact (congrArg (·.typeParameters.length) (hframe Y)).trans hlength

/-- A class with an alias is a revived one, so it is the base of a union. -/
theorem exists_base (hcategory : ∀ d ∈ model.data, d.category = .data) {X : DataDeclaration}
    (hX : X ∈ served.data) (hclass : X.isClass = true) (hunion : X.unionAlias.isSome = true) :
    ∃ Y ∈ model.data, Y.isDataClass = true ∧ Y.symbol = X.symbol ∧ Y.unionAlias.isSome = true := by
  rw [hdata] at hX
  rcases List.mem_append.mp hX with hX | hX
  · obtain ⟨Y, hY, rfl⟩ := List.mem_map.mp hX
    have hframe : (model.revived Y).frame = Y.frame := frame_revived Y
    have halias : (model.revived Y).unionAlias = Y.unionAlias := by
      unfold revived
      split <;> rfl
    have hYclass : Y.isClass = true := (congrArg (·.isClass) hframe).symm.trans hclass
    refine ⟨Y, hY, ?_, (congrArg (·.symbol) hframe).symm, halias ▸ hunion⟩
    simp [DataDeclaration.isDataClass, hYclass, hcategory Y hY]
  · rw [(hadded X hX).unionAlias] at hunion
    cases hunion

/-- The calls of added declarations are answered if and only if the content of responses fits. -/
theorem contentFits_iff (hmethods : ∀ d ∈ model.data, d.methods = [])
    (hcategory : ∀ d ∈ model.data, d.category = .data) :
    served.ContentFits ↔
      ∀ n ∈ added, ∀ u ∈ n.uses, Answered (model.data.map model.revived) n u := by
  have hcopy : ∀ n t, (∀ u ∈ (served.copyFunction t).uses,
      Answered (model.data.map model.revived) n u) ↔ served.CopyFits t :=
    fun n => answered_copyFunction_iff hmethods (fun _ => exists_base hdata hadded hcategory)
      fun _ _ => declares_served_iff hdata hadded
  constructor
  · intro hfits n hn u hu
    obtain ⟨hclass, hservice, m, hm, t, ht, hu⟩ := ((hadded n hn).mem_uses u).mp hu
    have hmem : n ∈ served.data := hdata ▸ List.mem_append_right _ hn
    exact (hcopy n t).mpr (hfits n hmem hclass hservice m hm t ht) u hu
  · intro hanswered n hn hclass hservice m hm t ht
    rw [hdata] at hn
    rcases List.mem_append.mp hn with hn | hn
    · obtain ⟨Y, hY, rfl⟩ := List.mem_map.mp hn
      have hdataCategory : (model.revived Y).category = .data :=
        (congrArg (·.category) (frame_revived Y)).trans (hcategory Y hY)
      rw [hdataCategory] at hservice
      exact nomatch hservice
    · refine (hcopy n t).mp fun u hu => hanswered n hn u (((hadded n hn).mem_uses u).mpr ?_)
      exact ⟨hclass, hservice, m, hm, t, ht, hu⟩

theorem usesAnswered_iff (hmethods : ∀ d ∈ model.data, d.methods = [])
    (hctor : ∀ d ∈ model.data, d.ctor = none) (hcategory : ∀ d ∈ model.data, d.category = .data) :
    UsesAnswered served.data ↔
      (∀ d ∈ model.data, d.isDataClass = true → model.RevivalFits d) ∧ served.ContentFits := by
  have hanswered : ∀ d u, Answered served.data d u ↔
      Answered (model.data.map model.revived) d u := by
    intro d u
    rw [hdata]
    exact answered_append_iff fun n hn => (hadded n hn).isDataClass
  have hnamed : ∀ d u, Answered (model.data.map model.revived) (model.revived d) u ↔
      Answered (model.data.map model.revived) d u := by
    intro d u
    have hsame : ∀ e, (model.revived d).named? e = d.named? e := by
      intro e
      cases e <;> simp [DataDeclaration.named?, parent_revived]
    simp only [Answered, hsame]
  rw [contentFits_iff hdata hadded hmethods hcategory]
  unfold UsesAnswered
  simp only [hanswered]
  rw [hdata]
  simp only [List.forall_mem_append, List.forall_mem_map, hnamed]
  refine and_congr_left fun _ => forall_congr' fun d => forall_congr' fun hd => ?_
  by_cases hclass : d.isDataClass = true
  · rw [answered_uses_revived_iff hmethods hctor hcategory hd hclass]
    exact ⟨fun h _ => h, fun h => h hclass⟩
  · refine iff_of_true (fun u hu => ?_) fun h => absurd h hclass
    exact absurd ((mem_uses_revived hmethods hctor hd).mp hu).1 hclass

end Served

/-- The form of optional properties changes the types of properties only. -/
theorem exists_form (form : OptionalForm) (model : Model) :
    ∃ f : DataDeclaration → DataDeclaration, (model.withOptionalForm form).data = model.data.map f ∧
      ∀ d, (f d).frame = d.frame ∧ (f d).methods = d.methods ∧ (f d).ctor = d.ctor := by
  unfold withOptionalForm
  split
  · exact ⟨id, by rw [List.map_id], fun _ => ⟨rfl, rfl, rfl⟩⟩
  · refine ⟨_, rfl, fun d => ?_⟩
    split <;> exact ⟨rfl, rfl, rfl⟩

/-- A client whose methods pass copy functions; another declaration stays as it is. -/
def copied (model : Model) (response : Symbol) (d : DataDeclaration) : DataDeclaration :=
  if d.isClass && d.category == .service then
    { d with methods := d.methods.map (model.addCopyFunction response) }
  else d

theorem data_withCopyFunctions (model : Model) (response : Symbol) :
    (model.withCopyFunctions response).data = model.data.map (model.copied response) := rfl

theorem frame_copied (response : Symbol) (d : DataDeclaration) :
    (model.copied response d).frame = d.frame := by
  unfold copied
  split <;> rfl

theorem unionAlias_copied (response : Symbol) (d : DataDeclaration) :
    (model.copied response d).unionAlias = d.unionAlias := by
  unfold copied
  split <;> rfl

end Model

namespace Compilation

variable {builder : Builder} (c : Compilation builder)

/-- A declaration of services copies nothing unless it is a client, and a client copies the content
of its responses. -/
theorem mem_uses_copied {service : Service} {represented : Model} {beans : List DataDeclaration}
    {role : Service.Role} {d : DataDeclaration} (h : service.IsDeclared c.table beans role d)
    (u : ClassUse) :
    u ∈ (represented.copied service.response (d.mapTypes c.choices.apply)).uses ↔
      d.isClass = true ∧ d.category = .service ∧
        ∃ m ∈ (represented.copied service.response (d.mapTypes c.choices.apply)).methods,
          ∃ t ∈ m.result.arguments, u ∈ (represented.copyFunction t).uses := by
  cases h with
  | surface _ hmethods =>
    refine iff_of_false (fun hu => ?_) (fun h => absurd h.1 Bool.false_ne_true)
    rw [Model.copied, if_neg (by simp [DataDeclaration.mapTypes])] at hu
    rw [DataDeclaration.uses_eq_nil (fun m' hm' => ?_) rfl] at hu
    · exact absurd hu List.not_mem_nil
    · obtain ⟨m, hm, rfl⟩ := List.mem_map.mp hm'
      obtain ⟨endpoint, -, hmethod⟩ := exists_mem_of_forall₂ hmethods hm
      exact hmethod.body
  | httpClient =>
    refine iff_of_false (fun hu => ?_) (fun h => absurd h.1 Bool.false_ne_true)
    rw [Model.copied, if_neg (by simp [DataDeclaration.mapTypes])] at hu
    rw [DataDeclaration.uses_eq_nil (by simp [DataDeclaration.mapTypes]) rfl] at hu
    exact absurd hu List.not_mem_nil
  | client _ _ _ _ hmethods =>
    simp only [Model.copied, DataDeclaration.mapTypes, Bool.true_and, beq_self_eq_true, if_true,
      DataDeclaration.uses, Option.map_some, Option.toList_some, List.flatMap_singleton, true_and]
    have hctor : ∀ u, u ∉ codeUses [] := fun u => List.not_mem_nil
    rw [List.mem_append, or_iff_left (hctor u), List.mem_flatMap]
    refine exists_congr fun m' => and_congr_right fun hm' => ?_
    obtain ⟨mapped, hmapped, rfl⟩ := List.mem_map.mp hm'
    obtain ⟨m, hm, hmapping⟩ := List.mem_map.mp hmapped
    obtain ⟨endpoint, -, hmethod⟩ := exists_mem_of_forall₂ hmethods hm
    have hbody : mapped.body = some (service.clientBody endpoint) := by
      rw [← hmapping]
      exact hmethod.body
    have hresult : mapped.result = .reference service.response [c.choices.apply
        ((endpoint.returnType.map (service.typeImage c.table)).getD (.primitive .void))] := by
      rw [← hmapping]
      dsimp only
      rw [hmethod.result, Service.resultImage, Service.responseOf, Choices.apply_reference]
      rfl
    rw [Model.mem_uses_addCopyFunction hbody hresult, Model.addCopyFunction_eq]
    dsimp only
    rw [hresult, TypeExpr.arguments]
    simp

section Added

variable {service : Service} {represented : Model} {beans : List DataDeclaration}

theorem isAdded_of_role {role : Service.Role} {d : DataDeclaration}
    (h : service.IsDeclared c.table beans role d)
    (hcopy : ∀ t, c.served.copyFunction t = represented.copyFunction t) :
    Model.IsAdded c.served (represented.copied service.response (d.mapTypes c.choices.apply)) := by
  have hframe : (represented.copied service.response (d.mapTypes c.choices.apply)).frame =
      d.frame :=
    Model.frame_copied service.response _
  have hclass : (represented.copied service.response (d.mapTypes c.choices.apply)).isClass =
      d.isClass := congrArg (·.isClass) hframe
  have hcategory : (represented.copied service.response (d.mapTypes c.choices.apply)).category =
      d.category := congrArg (·.category) hframe
  refine ⟨?_, ?_, fun u => ?_⟩
  · rw [DataDeclaration.isDataClass, hcategory, beq_eq_false_iff_ne.mpr h.category_ne,
      Bool.and_false]
  · rw [Model.unionAlias_copied]
    exact h.unionAlias_eq
  · simp only [hcopy, hclass, hcategory]
    exact c.mem_uses_copied h u

theorem isAdded_of_bean {b : DataDeclaration} (h : service.IsBean c.table b) :
    Model.IsAdded c.served (represented.copied service.response (b.mapTypes c.choices.apply)) := by
  obtain ⟨_, -, _, -, -, hdeclares⟩ := h
  rw [hdeclares.shape]
  refine ⟨rfl, rfl, fun u => iff_of_false ?_ (fun h => nomatch h.1)⟩
  have huses : (represented.copied service.response (DataDeclaration.mapTypes c.choices.apply
      { symbol := b.symbol, properties := b.properties, comments := b.comments })).uses = [] :=
    DataDeclaration.uses_eq_nil nofun rfl
  rw [huses]
  exact List.not_mem_nil

end Added

/-- Without clients there is nothing to pass copy functions in. -/
theorem copied_of_no_client {service : Service} {beans : List DataDeclaration} {role : Service.Role}
    {d : DataDeclaration} (h : service.IsDeclared c.table beans role d)
    (hclient : service.settings.restCodegen.client ≠ true) (model : Model) :
    model.copied service.response (d.mapTypes c.choices.apply) = d.mapTypes c.choices.apply := by
  cases h with
  | surface _ _ => rfl
  | httpClient => rfl
  | client h _ _ _ _ => exact absurd h hclient

/-- The declarations of a model with services are revived classes and new ones. -/
theorem exists_added (hmode : builder.settings.deserializationFunctions = true) :
    ∃ added, c.served.data = c.united.data.map c.united.revived ++ added ∧
      ∀ n ∈ added, Model.IsAdded c.served n := by
  have hrevived : c.revived.data = c.united.data.map c.united.revived := by
    rw [revived, Model.revive, if_pos hmode, Model.data_withRevival]
  by_cases hnone : builder.graph.rest = none ∨ builder.settings.restCodegen = .neither
  · refine ⟨[], by rw [c.served_eq_revived hnone, hrevived, List.append_nil], ?_⟩
    intro n hn
    exact absurd hn List.not_mem_nil
  rw [not_or] at hnone
  obtain ⟨application, hrest⟩ := Option.ne_none_iff_exists'.mp hnone.1
  obtain ⟨response, extended, declared, beans, aliases, represented, -, hextends, hdata, hserved,
    hcopies⟩ := c.data_served hrest hnone.2
  have hkept : ∀ d ∈ c.revived.data, represented.copied response d = d := by
    intro d hd
    obtain ⟨source, -, hframe⟩ := c.exists_classFrame_revived hd
    have hcategory : d.category = .data := congrArg (·.category) hframe
    rw [Model.copied, hcategory]
    simp
  have hbean : ∀ b ∈ beans, represented.copied response (b.mapTypes c.choices.apply) =
      b.mapTypes c.choices.apply := by
    intro b hb
    obtain ⟨_, -, _, -, -, hdeclares⟩ := hextends.areBeans.each b hb
    rw [hdeclares.shape]
    rfl
  have hcopied : c.served.data = represented.data.map (represented.copied response) := by
    by_cases hclient : builder.settings.restCodegen.client = true
    · rw [hcopies hmode hclient, Model.data_withCopyFunctions]
    · rcases hserved with hserved | hserved
      · rw [hserved, map_eq_of_fixed]
        rw [hdata]
        intro d hd
        rcases List.mem_append.mp hd with hd | hd
        · exact hkept d hd
        · obtain ⟨b, hb, rfl⟩ := List.mem_map.mp hd
          rcases List.mem_append.mp hb with hb | hb
          · obtain ⟨role, -, -, hrole⟩ := hextends.exists_role hb
            exact c.copied_of_no_client hrole hclient represented
          · exact hbean b hb
      · rw [hserved, Model.data_withCopyFunctions]
  have hcopy : ∀ t, c.served.copyFunction t = represented.copyFunction t :=
    Model.copyFunction_map hcopied (Model.frame_copied response) (Model.unionAlias_copied response)
  refine ⟨((declared ++ beans).map (·.mapTypes c.choices.apply)).map (represented.copied response),
    ?_, ?_⟩
  · rw [hcopied, hdata, List.map_append, map_eq_of_fixed hkept, hrevived]
  · rw [List.forall_mem_map, List.forall_mem_map]
    intro d hd
    rcases List.mem_append.mp hd with hd | hd
    · obtain ⟨role, -, -, hrole⟩ := hextends.exists_role hd
      exact c.isAdded_of_role hrole hcopy
    · exact c.isAdded_of_bean (hextends.areBeans.each d hd)

/-- The calls of a model with services are answered if and only if what they depend on holds. -/
theorem usesAnswered_served_iff (hmode : builder.settings.deserializationFunctions = true) :
    UsesAnswered c.served.data ↔
      (∀ d ∈ c.united.data, d.isDataClass = true → c.united.RevivalFits d) ∧
        c.served.ContentFits := by
  obtain ⟨added, hdata, hadded⟩ := c.exists_added hmode
  exact Model.usesAnswered_iff hdata hadded (fun d hd => (c.methods_united hd).1)
    (fun d hd => (c.methods_united hd).2) fun d hd => c.category_of_mem_united hd

end Compilation

/-- Where classes can be revived, all calls of the functions that revive are answered if and only if
the classes that are called have as many type parameters as the calls pass copy functions. For the
parent of a class and for the members of a union that is none. -/
theorem usesAnswered_compile_iff {graph : SourceGraph} {settings : Settings} {out : Compiled}
    (hmode : settings.deserializationFunctions = true) (h : compile graph settings = .ok out) :
    UsesAnswered out.model.data ↔
      (∀ d ∈ (graph.builder settings).unitedRun.1.data, d.isDataClass = true →
        (graph.builder settings).unitedRun.1.RevivalFits d) ∧
      (graph.builder settings).servedRun.1.ContentFits := by
  obtain ⟨-, -, hfinish⟩ := compileWith_eq_ok_iff.mp h
  obtain ⟨c, -, -, -, hunited, hserved, hfinal⟩ := (graph.builder settings).exists_stages
  have hmodel : out.model = c.final.order out.names settings.sortMode := by
    rw [hfinal]
    exact (ok_finish hfinish).2.1
  rw [← hunited, ← hserved, ← c.usesAnswered_served_iff hmode, hmodel]
  obtain ⟨form, hform, hkept⟩ := Model.exists_form settings.optionalProperties c.served
  apply usesAnswered_congr (f := settings.sortMode.arrange ∘ form)
  · intro D
    rw [Model.mem_data_order, Compilation.final]
    have hdata : (c.served.withOptionalForm settings.optionalProperties).data =
        c.served.data.map form :=
      hform
    show (∃ d' ∈ (c.served.withOptionalForm settings.optionalProperties).data, _) ↔ _
    rw [hdata]
    simp only [List.mem_map, exists_exists_and_eq_and, Function.comp]
  · intro d
    rw [Function.comp, SortMode.frame_arrange, (hkept d).1]
  · intro d
    rw [Function.comp, SortMode.methods_arrange, (hkept d).2.1]
  · intro d
    rw [Function.comp, SortMode.ctor_arrange, (hkept d).2.2]

/-- The parent of a gift is a box of dates, and the call of its function passes no function that
copies dates. -/
theorem not_usesAnswered_gift :
    ∃ out, compile giftGraph giftSettings = .ok out ∧ ¬ UsesAnswered out.model.data := by
  obtain ⟨out, hout⟩ := exists_compile_gift
  refine ⟨out, hout, fun hanswered => ?_⟩
  have hmode : giftSettings.deserializationFunctions = true := rfl
  obtain ⟨hfits, -⟩ := (usesAnswered_compile_iff hmode hout).mp hanswered
  have hgeneric : ((giftGraph.builder giftSettings).unitedRun.1.data.any fun d => d.isDataClass &&
      d.parent.any fun t => !(giftGraph.builder giftSettings).unitedRun.1.data.any fun X =>
        X.isDataClass && t.referenced? == some X.symbol && X.typeParameters.length == 0) =
          true := by cbv
  simp only [List.any_eq_true, Bool.and_eq_true, Option.any_eq_true, Bool.not_eq_true',
    List.any_eq_false, beq_iff_eq, not_and] at hgeneric
  obtain ⟨d, hd, hclass, t, ht, hnone⟩ := hgeneric
  obtain ⟨s, hs, X, hX, hXclass, rfl, hlength⟩ := (hfits d hd hclass).parent t ht
  exact hnone X hX ⟨hXclass, hs⟩ hlength

end Typings
