import Typings.Proofs.Model.Revival

/-!
# Uses of the functions of classes

Generated code uses the static functions of classes by the name of a class, or by `super`, which
names the parent. It calls them with arguments, or hands them over as functions of one argument: the
data to copy. Parsed data, copy functions and the instance to fill are told apart by their form, so
whether a use fits a function is a matter of comparing lists of roles.

## Main definitions

* `Expression.uses`, `DataDeclaration.uses`: the uses in an expression and in the code of a
  declaration.
* `Method.Accepts`: the arguments of a use are those that a method has parameters for.
* `Answered`: some class has the function that is used, with fitting parameters.
* `Model.CopiedThrough`: the classes that values of a type are copied through.

## Main results

* `Model.mem_uses_copyFunction`: the code that copies values of a type uses the functions of these
  classes, and no others.
-/

namespace Typings

/-! ## Roles -/

/-- What an argument of a function that revives data is for. -/
inductive ArgumentRole where
  /-- Parsed data. -/
  | data
  /-- A function that copies the values of a type parameter. -/
  | copier
  /-- The instance to fill. -/
  | target
  deriving DecidableEq

/-- The role of a parameter: functions copy, and only the instance may be left out. -/
def Parameter.role (p : Parameter) : ArgumentRole :=
  match p.type with
  | .function _ _ => .copier
  | .optional _ => .target
  | _ => .data

/-- The role of an argument. Parsed data is held by `data` and its properties, and the instance by
`instance`; other names are those of parameters that copy. -/
def Expression.role? : Expression → Option ArgumentRole
  | .identifier name =>
    some (if name = "data" then .data else if name = "instance" then .target else .copier)
  | .member (.identifier name) _ => if name = "data" then some .data else none
  | .member (.typeName _) _ => some .copier
  | .call _ _ _ => some .copier
  | _ => none

def Method.roles (m : Method) : List (Option ArgumentRole) :=
  m.parameters.map fun p => some p.role

/-- Whether a method takes arguments of these roles, in this order; an instance may be left out. -/
def Method.Accepts (m : Method) (roles : List (Option ArgumentRole)) : Prop :=
  m.roles = roles ∨ m.roles = roles ++ [some .target]

/-! ## Uses -/

/-- A use of a function of a class, which an expression names. -/
structure ClassUse where
  owner : Expression
  function : String
  roles : List (Option ArgumentRole)

namespace Expression

def isClass : Expression → Bool
  | typeName _ | super => true
  | _ => false

/-- The use that an expression is if it stands as a value: the function is handed over, to be called
with data. -/
def handedOver? : Expression → Option ClassUse
  | member owner function =>
    if owner.isClass then some ⟨owner, function, [some .data]⟩ else none
  | _ => none

def called? : Expression → Option ClassUse
  | call (member owner function) _ args =>
    if owner.isClass then some ⟨owner, function, args.map role?⟩ else none
  | _ => none

/-- The parts that stand as values: all but the function that is called. -/
def operands : Expression → List Expression
  | call _ _ args => args
  | e => e.parts

def ownUses (e : Expression) : List ClassUse :=
  e.called?.toList ++ e.operands.filterMap handedOver?

/-- The uses in an expression that stands as a value. -/
def uses (e : Expression) : List ClassUse :=
  e.handedOver?.toList ++ e.nodes.flatMap ownUses

variable {u : ClassUse}

/-- The uses in an expression that is not a function of a class are those in its parts. -/
theorem mem_uses_of_operands {e : Expression} (hhanded : e.handedOver? = none)
    (hcalled : e.called? = none) (hoperands : e.operands = e.parts) :
    u ∈ e.uses ↔ ∃ p ∈ e.parts, u ∈ p.uses := by
  rw [uses, hhanded, nodes_eq, List.flatMap_cons, ownUses, hcalled, hoperands]
  simp only [Option.toList_none, List.nil_append, List.mem_append, List.mem_filterMap,
    List.mem_flatMap, uses, Option.mem_toList]
  grind

variable {args : List Expression} {typeArgs : List TypeExpr}

/-- A call uses what it calls, and what its arguments use. -/
theorem mem_uses_call {callee : Expression} :
    u ∈ (call callee typeArgs args).uses ↔
      (call callee typeArgs args).called? = some u ∨ u ∈ callee.nodes.flatMap ownUses ∨
        ∃ a ∈ args, u ∈ a.uses := by
  rw [uses, nodes_eq, List.flatMap_cons, ownUses]
  simp only [handedOver?, operands, parts, Option.toList_none, List.nil_append, List.mem_append,
    List.mem_filterMap, List.mem_flatMap, uses, Option.mem_toList, List.mem_cons]
  grind

@[simp] theorem uses_identifier (name : String) : (identifier name).uses = [] := rfl

@[simp] theorem uses_undefined : undefined.uses = [] := rfl

@[simp] theorem uses_text (value : String) : (text value).uses = [] := rfl

@[simp] theorem uses_memberIdentifier (name property : String) :
    (member (identifier name) property).uses = [] := rfl

theorem uses_memberClass {owner : Expression} (h : owner.isClass = true) (function : String) :
    (member owner function).uses = [⟨owner, function, [some .data]⟩] := by
  cases owner with
  | typeName _ | super => rfl
  | _ => cases h

/-- A call of a function of a class. -/
theorem mem_uses_callMember {owner : Expression} (h : owner.isClass = true) {function : String} :
    u ∈ (call (member owner function) typeArgs args).uses ↔
      u = ⟨owner, function, args.map role?⟩ ∨ ∃ a ∈ args, u ∈ a.uses := by
  have hinner : (member owner function).nodes.flatMap ownUses = [] := by
    cases owner with
    | typeName _ | super => rfl
    | _ => cases h
  rw [mem_uses_call, hinner, called?, if_pos h, Option.some.injEq, eq_comm]
  simp

theorem mem_uses_callIdentifier {name : String} :
    u ∈ (call (identifier name) typeArgs args).uses ↔ ∃ a ∈ args, u ∈ a.uses := by
  rw [mem_uses_call]
  simp [called?, nodes, ownUses, operands, parts]

/-- Calling a function with data uses what handing it over does. -/
theorem mem_uses_applyData {e source : Expression} (hrole : source.role? = some .data)
    (hsource : source.uses = []) : u ∈ (apply e [source]).uses ↔ u ∈ e.uses := by
  have hcalled : (apply e [source]).called? = e.handedOver? := by
    cases e with
    | member owner function => simp [apply, called?, handedOver?, hrole]
    | _ => rfl
  unfold apply at hcalled ⊢
  rw [mem_uses_call, hcalled, uses, List.mem_append, Option.mem_toList]
  simp [hsource]

end Expression

def codeUses (body : List Statement) : List ClassUse :=
  body.flatMap fun s => s.expressions.flatMap (·.uses)

def Method.uses (m : Method) : List ClassUse :=
  codeUses (m.body.getD [])

namespace DataDeclaration

/-- The uses in the code of methods and of the constructor. -/
def uses (d : DataDeclaration) : List ClassUse :=
  d.methods.flatMap (·.uses) ++ d.ctor.toList.flatMap fun c => codeUses c.body

/-- The symbol of the class that an expression in the code of a declaration names. -/
def named? (d : DataDeclaration) : Expression → Option Symbol
  | .typeName type => type.referenced?
  | .super => d.parent.bind (·.referenced?)
  | _ => none

end DataDeclaration

/-- Whether a use in the code of a declaration is answered: a class of that name has a static method
of that name, which takes the arguments. -/
def Answered (data : List DataDeclaration) (d : DataDeclaration) (u : ClassUse) : Prop :=
  ∃ X ∈ data, X.isDataClass = true ∧ d.named? u.owner = some X.symbol ∧
    ∃ m ∈ X.methods, m.modifiers.static = true ∧ m.name = u.function ∧ m.Accepts u.roles

def UsesAnswered (data : List DataDeclaration) : Prop :=
  ∀ d ∈ data, ∀ u ∈ d.uses, Answered data d u

/-- Whether uses are answered depends on the frames of declarations, their methods and constructors,
and not on the order of declarations. -/
theorem usesAnswered_congr {data data' : List DataDeclaration}
    {f : DataDeclaration → DataDeclaration}
    (hmem : ∀ D, D ∈ data' ↔ ∃ d ∈ data, f d = D) (hframe : ∀ d, (f d).frame = d.frame)
    (hmethods : ∀ d, (f d).methods = d.methods) (hctor : ∀ d, (f d).ctor = d.ctor) :
    UsesAnswered data' ↔ UsesAnswered data := by
  have huses : ∀ d, (f d).uses = d.uses := by
    intro d
    rw [DataDeclaration.uses, hmethods, hctor]
    rfl
  have hsymbol : ∀ d, (f d).symbol = d.symbol := fun d => congrArg (·.symbol) (hframe d)
  have hclass : ∀ d, (f d).isDataClass = d.isDataClass :=
    fun d => congrArg (·.isDataClass) (hframe d)
  have hnamed : ∀ d e, (f d).named? e = d.named? e := by
    intro d e
    have hparent : (f d).parent = d.parent := congrArg (·.parent) (hframe d)
    cases e <;> simp [DataDeclaration.named?, hparent]
  have hanswered : ∀ d u, Answered data' (f d) u ↔ Answered data d u := by
    intro d u
    unfold Answered
    constructor
    · rintro ⟨D, hD, h⟩
      obtain ⟨X, hX, rfl⟩ := (hmem D).mp hD
      rw [hclass, hnamed, hsymbol, hmethods] at h
      exact ⟨X, hX, h⟩
    · rintro ⟨X, hX, h⟩
      refine ⟨f X, (hmem _).mpr ⟨X, hX, rfl⟩, ?_⟩
      rw [hclass, hnamed, hsymbol, hmethods]
      exact h
  constructor
  · intro h d hd u hu
    exact (hanswered d u).mp (h (f d) ((hmem _).mpr ⟨d, hd, rfl⟩) u (by rwa [huses]))
  · intro h D hD u hu
    obtain ⟨d, hd, rfl⟩ := (hmem D).mp hD
    rw [huses] at hu
    exact (hanswered d u).mpr (h d hd u hu)

/-- Declarations that are no classes of data answer nothing. -/
theorem answered_append_iff {data new : List DataDeclaration}
    (h : ∀ n ∈ new, n.isDataClass = false) {d : DataDeclaration} {u : ClassUse} :
    Answered (data ++ new) d u ↔ Answered data d u := by
  unfold Answered
  constructor
  · rintro ⟨X, hX, hclass, hrest⟩
    rcases List.mem_append.mp hX with hX | hX
    · exact ⟨X, hX, hclass, hrest⟩
    · rw [h X hX] at hclass
      exact nomatch hclass
  · rintro ⟨X, hX, hrest⟩
    exact ⟨X, List.mem_append_left _ hX, hrest⟩

/-! ## Copied types -/

namespace Model

variable {model : Model} {u : ClassUse}

/-- Whether values of a type are copied by a function of a class, given type arguments. -/
inductive CopiedThrough (model : Model) : TypeExpr → DataDeclaration → List TypeExpr → Prop where
  | named {symbol : Symbol} {X : DataDeclaration} (h : model.revivable? symbol = some X) :
      CopiedThrough model (.reference symbol []) X []
  | generic {symbol : Symbol} {X : DataDeclaration} {args : List TypeExpr} (hargs : args ≠ [])
      (h : model.revivableGeneric? symbol = some X) :
      CopiedThrough model (.reference symbol args) X args
  | argument {symbol : Symbol} {X Y : DataDeclaration} {args args' : List TypeExpr} {arg : TypeExpr}
      (hY : model.revivableGeneric? symbol = some Y) (harg : arg ∈ args)
      (h : CopiedThrough model arg X args') : CopiedThrough model (.reference symbol args) X args'
  | element {element : TypeExpr} {X : DataDeclaration} {args : List TypeExpr}
      (h : CopiedThrough model element X args) : CopiedThrough model (.array element) X args
  | value {key value : TypeExpr} {X : DataDeclaration} {args : List TypeExpr}
      (h : CopiedThrough model value X args) : CopiedThrough model (.indexed key value) X args
  | present {inner : TypeExpr} {X : DataDeclaration} {args : List TypeExpr}
      (h : CopiedThrough model inner X args) : CopiedThrough model (.optional inner) X args

section CopiedThrough

variable {X : DataDeclaration} {args : List TypeExpr}

theorem copiedThrough_bare {symbol : Symbol} :
    model.CopiedThrough (.reference symbol []) X args ↔
      model.revivable? symbol = some X ∧ args = [] := by
  constructor
  · intro h
    cases h with
    | named h => exact ⟨h, rfl⟩
    | generic hargs _ => exact absurd rfl hargs
    | argument _ harg _ => exact absurd harg List.not_mem_nil
  · rintro ⟨h, rfl⟩
    exact .named h

theorem copiedThrough_generic {symbol : Symbol} {types : List TypeExpr} (hne : types ≠ []) :
    model.CopiedThrough (.reference symbol types) X args ↔
      ∃ Y, model.revivableGeneric? symbol = some Y ∧
        (X = Y ∧ args = types ∨ ∃ t ∈ types, model.CopiedThrough t X args) := by
  constructor
  · intro h
    cases h with
    | named _ => exact absurd rfl hne
    | generic _ h => exact ⟨X, h, .inl ⟨rfl, rfl⟩⟩
    | argument hY harg h => exact ⟨_, hY, .inr ⟨_, harg, h⟩⟩
  · rintro ⟨Y, hY, ⟨rfl, rfl⟩ | ⟨t, ht, h⟩⟩
    · exact .generic hne hY
    · exact .argument hY ht h

theorem copiedThrough_array {element : TypeExpr} :
    model.CopiedThrough (.array element) X args ↔ model.CopiedThrough element X args :=
  ⟨fun h => by cases h; assumption, .element⟩

theorem copiedThrough_indexed {key value : TypeExpr} :
    model.CopiedThrough (.indexed key value) X args ↔ model.CopiedThrough value X args :=
  ⟨fun h => by cases h; assumption, .value⟩

theorem copiedThrough_optional {inner : TypeExpr} :
    model.CopiedThrough (.optional inner) X args ↔ model.CopiedThrough inner X args :=
  ⟨fun h => by cases h; assumption, .present⟩

theorem CopiedThrough.mem_data {t : TypeExpr} (h : model.CopiedThrough t X args) :
    X ∈ model.data ∧ X.isClass = true := by
  induction h with
  | named h => exact ⟨mem_of_revivable? h, (Option.filter_eq_some_iff.mp h).2⟩
  | generic _ h =>
    have hfound := (Option.filter_eq_some_iff.mp h).1
    exact ⟨mem_of_revivable? hfound, (Option.filter_eq_some_iff.mp hfound).2⟩
  | argument _ _ _ ih => exact ih
  | element _ ih => exact ih
  | value _ ih => exact ih
  | present _ ih => exact ih

end CopiedThrough

/-- The function of a class that copies values, given type arguments. -/
def copyUse (X : DataDeclaration) : List TypeExpr → ClassUse
  | [] => ⟨.typeName (.bare X.symbol),
      if X.unionAlias.isSome then "fromDataUnion" else "fromData", [some .data]⟩
  | args => ⟨.typeName (.bare X.symbol), "fromDataFn", args.map fun _ => some .copier⟩

theorem constructorName_ne (v : String) :
    constructorName v ≠ "data" ∧ constructorName v ≠ "instance" := by
  have hlength : (constructorName v).length = 15 + v.length := String.length_append ..
  constructor
  · intro h
    rw [h] at hlength
    exact absurd hlength (by show 4 ≠ 15 + v.length; omega)
  · intro h
    rw [h] at hlength
    exact absurd hlength (by show 8 ≠ 15 + v.length; omega)

/-- A copy function is used as one. -/
theorem role?_copyFunction (t : TypeExpr) : (model.copyFunction t).role? = some .copier := by
  induction t using TypeExpr.partsInduction with
  | step t ih =>
    cases t with
    | reference symbol args =>
      cases args <;> rw [copyFunction] <;> split <;> rfl
    | optional inner => exact ih inner (by simp [TypeExpr.parts])
    | var v =>
      obtain ⟨hdata, hinstance⟩ := constructorName_ne v
      rw [copyFunction, Expression.role?, if_neg hdata, if_neg hinstance]
    | _ => rfl

theorem uses_identityOf (t : TypeExpr) : (identityOf t).uses = [] := rfl

/-- The code for a reference with type arguments uses the generic class and what its arguments
use. -/
theorem mem_uses_copyFunction_generic {symbol : Symbol} {types : List TypeExpr} (hne : types ≠ []) :
    u ∈ (model.copyFunction (.reference symbol types)).uses ↔
      ∃ Y, model.revivableGeneric? symbol = some Y ∧
        (u = copyUse Y types ∨ ∃ t ∈ types, u ∈ (model.copyFunction t).uses) := by
  obtain ⟨arg, rest, rfl⟩ := List.exists_cons_of_ne_nil hne
  rw [copyFunction]
  cases hfound : model.revivableGeneric? symbol with
  | none => simp [uses_identityOf]
  | some Y =>
    have hcopies : model.copyFunction arg :: model.copyFunctions rest =
        (arg :: rest).map model.copyFunction := by
      rw [copyFunctions_eq_map, List.map_cons]
    have hroles : ((arg :: rest).map model.copyFunction).map Expression.role? =
        (arg :: rest).map fun _ => some .copier := by
      rw [List.map_map]
      exact List.map_congr_left fun a _ => role?_copyFunction a
    dsimp only
    rw [hcopies, Expression.mem_uses_callMember rfl, hroles]
    simp only [Option.some.injEq, exists_eq_left', List.mem_map, exists_exists_and_eq_and, copyUse]

/-- The code that copies values of a type uses the classes that these values are copied through. -/
theorem mem_uses_copyFunction {t : TypeExpr} :
    u ∈ (model.copyFunction t).uses ↔
      ∃ X args, model.CopiedThrough t X args ∧ u = copyUse X args := by
  induction t using TypeExpr.partsInduction with
  | step t ih =>
    cases t with
    | reference symbol types =>
      by_cases hne : types = []
      · subst hne
        simp only [copiedThrough_bare]
        rw [copyFunction]
        cases hfound : model.revivable? symbol with
        | none => simp [TypeExpr.bare, uses_identityOf]
        | some X =>
          dsimp only
          rw [Expression.uses_memberClass rfl, List.mem_singleton]
          constructor
          · rintro rfl
            exact ⟨X, [], ⟨rfl, rfl⟩, rfl⟩
          · rintro ⟨Y, args, ⟨hY, rfl⟩, rfl⟩
            obtain rfl := Option.some.inj hY
            rfl
      · rw [mem_uses_copyFunction_generic hne]
        simp only [copiedThrough_generic hne]
        constructor
        · rintro ⟨Y, hY, rfl | ⟨t, ht, hu⟩⟩
          · exact ⟨Y, types, ⟨Y, hY, .inl ⟨rfl, rfl⟩⟩, rfl⟩
          · obtain ⟨X, args, h, rfl⟩ := (ih t ht).mp hu
            exact ⟨X, args, ⟨Y, hY, .inr ⟨t, ht, h⟩⟩, rfl⟩
        · rintro ⟨X, args, ⟨Y, hY, ⟨rfl, rfl⟩ | ⟨t, ht, h⟩⟩, rfl⟩
          · exact ⟨X, hY, .inl rfl⟩
          · exact ⟨Y, hY, .inr ⟨t, ht, (ih t ht).mpr ⟨X, args, h, rfl⟩⟩⟩
    | array element =>
      rw [copyFunction, Expression.apply, Expression.mem_uses_callIdentifier]
      simp only [List.mem_singleton, exists_eq_left, copiedThrough_array]
      exact ih element (by simp [TypeExpr.parts])
    | indexed key value =>
      rw [copyFunction, Expression.apply, Expression.mem_uses_callIdentifier]
      simp only [List.mem_singleton, exists_eq_left, copiedThrough_indexed]
      exact ih value (by simp [TypeExpr.parts])
    | optional inner =>
      rw [copyFunction]
      simp only [copiedThrough_optional]
      exact ih inner (by simp [TypeExpr.parts])
    | var v =>
      rw [copyFunction, Expression.uses_identifier]
      refine iff_of_false List.not_mem_nil ?_
      rintro ⟨_, _, h, _⟩
      cases h
    | _ =>
      rw [copyFunction, uses_identityOf]
      refine iff_of_false List.not_mem_nil ?_
      rintro ⟨_, _, h, _⟩
      cases h

end Model

end Typings
