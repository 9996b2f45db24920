import Mathlib.Data.List.InsertIdx
import Typings.Proofs.Model.Inherited
import Typings.Proofs.Renaming.Declaration
import Typings.Service.Declarations

/-!
# What the changes of a model look up

The changes between building and naming look declarations up by their symbols and by their source
entities, and otherwise treat one declaration at a time. They do the same to a renamed declaration
in any model whose lookups lead to the renamed declarations.

## Main definitions

* `Model.Mirrors`: the lookups of a model lead to the renamed declarations of another one.

## Main results

* `Model.Mirrors.dropRestated`, `Model.Mirrors.copyImplemented`, `Model.Mirrors.revivalMethods`,
  `Model.Mirrors.addCopyFunction`: the changes of one declaration commute with renaming.
-/

namespace Typings

variable {f : Symbol → Symbol}

/-! ## Declarations on their own -/

namespace DataDeclaration

variable (d : DataDeclaration)

@[simp] theorem rename_symbol : (d.rename f).symbol = f d.symbol := rfl

@[simp] theorem rename_category : (d.rename f).category = d.category := rfl

@[simp] theorem rename_isClass : (d.rename f).isClass = d.isClass := rfl

@[simp] theorem rename_typeParameters : (d.rename f).typeParameters = d.typeParameters := rfl

@[simp] theorem rename_parent : (d.rename f).parent = d.parent.map (TypeExpr.rename f) := rfl

@[simp] theorem rename_interfaces :
    (d.rename f).interfaces = d.interfaces.map (TypeExpr.rename f) := rfl

@[simp] theorem rename_properties :
    (d.rename f).properties = d.properties.map (Property.rename f) := rfl

@[simp] theorem rename_methods : (d.rename f).methods = d.methods.map (Method.rename f) := rfl

@[simp] theorem rename_unionAlias : (d.rename f).unionAlias = d.unionAlias.map f := rfl

@[simp] theorem rename_unionMembers : (d.rename f).unionMembers = d.unionMembers := rfl

@[simp] theorem rename_discriminantLiteral :
    (d.rename f).discriminantLiteral = d.discriminantLiteral := rfl

@[simp] theorem rename_discriminantProperty :
    (d.rename f).discriminantProperty = d.discriminantProperty := rfl

theorem parent_toList_rename :
    (d.rename f).parent.toList = d.parent.toList.map (TypeExpr.rename f) := by
  rw [rename_parent]
  cases d.parent <;> rfl

theorem types_rename : (d.rename f).types = d.types.map (TypeExpr.rename f) := by
  have hctor : (d.rename f).ctor.toList.flatMap (fun c => c.parameters.map (·.type)) =
      (d.ctor.toList.flatMap fun c => c.parameters.map (·.type)).map (TypeExpr.rename f) := by
    cases hctor : d.ctor <;>
      simp [rename, hctor, Constructor.rename, ConstructorParameter.rename, Function.comp_def]
  rw [types, types, hctor]
  simp [Property.rename, Method.rename, Parameter.rename, List.map_flatMap, List.flatMap_map,
    Function.comp_def]

theorem rename_mapTypes {g g' : TypeExpr → TypeExpr} (h : ∀ t, g' (t.rename f) = (g t).rename f) :
    (d.rename f).mapTypes g' = (d.mapTypes g).rename f := by
  simp [mapTypes, rename, Property.rename, Method.rename, Parameter.rename, Constructor.rename,
    ConstructorParameter.rename, Function.comp_def, h]

theorem selfType_rename : (d.rename f).selfType = d.selfType.rename f := by
  simp [selfType, Function.comp_def]

theorem constructorParameters_rename :
    (d.rename f).constructorParameters = d.constructorParameters.map (Parameter.rename f) := by
  simp [constructorParameters, Parameter.rename, Function.comp_def]

theorem staticMethod_rename (name : String) (parameters : List Parameter) (result : TypeExpr)
    (body : List Statement) :
    (d.rename f).staticMethod name (parameters.map (Parameter.rename f)) (result.rename f)
        (body.map (Statement.rename f)) =
      (d.staticMethod name parameters result body).rename f := by
  simp [staticMethod, Method.rename]

theorem fromDataFn_rename : (d.rename f).fromDataFn = d.fromDataFn.rename f := by
  simp only [fromDataFn]
  rw [← staticMethod_rename, constructorParameters_rename, selfType_rename]
  simp [Statement.rename, Expression.rename, Expression.apply, Parameter.rename, Function.comp_def]

end DataDeclaration

namespace Model

/-! ## Lookups -/

/-- The lookups of a model lead to the renamed declarations of another one. -/
structure Mirrors (f : Symbol → Symbol) (model model' : Model) : Prop where
  injective : f.Injective
  findData? (s : Symbol) : model'.findData? (f s) = (model.findData? s).map (·.rename f)
  findOrigin? (entity : String) :
    model'.findOrigin? entity = (model.findOrigin? entity).map (·.rename f)
  revivable? (s : Symbol) : model'.revivable? (f s) = (model.revivable? s).map (·.rename f)

namespace Mirrors

variable {model model' : Model} (h : Mirrors f model model')

include h

theorem supertype? (t : TypeExpr) :
    model'.supertype? (t.rename f) = (model.supertype? t).map (·.rename f) := by
  rw [Model.supertype?, Model.supertype?, TypeExpr.referenced?_rename]
  cases t.referenced? with
  | none => rfl
  | some s => exact h.findData? s

/-! ## Inherited properties -/

theorem propertiesAbove (path : List Symbol) (types : List TypeExpr) :
    model'.propertiesAbove (path.map f) (types.map (TypeExpr.rename f)) =
      (model.propertiesAbove path types).map (Property.rename f) := by
  induction path, types using Model.propertiesAbove.induct model with
  | case1 path =>
    rw [List.map_nil, Model.propertiesAbove, Model.propertiesAbove]
    rfl
  | case2 path t rest hnone ih =>
    have hnone' := h.supertype? t
    rw [hnone] at hnone'
    rw [List.map_cons, Model.propertiesAbove, Model.propertiesAbove.eq_2 model, hnone, hnone']
    exact ih
  | case3 path t rest d hfound hagain ih =>
    have hfound' := h.supertype? t
    rw [hfound] at hfound'
    have hagain' : (d.rename f).symbol ∈ path.map f := List.mem_map_of_mem hagain
    rw [List.map_cons, Model.propertiesAbove, Model.propertiesAbove.eq_2 model, hfound, hfound']
    simp only [Option.map_some, hagain, hagain', dif_pos]
    exact ih
  | case4 path t rest d hfound hnew ihabove ihrest =>
    have hfound' := h.supertype? t
    rw [hfound] at hfound'
    have hnew' : (d.rename f).symbol ∉ path.map f :=
      fun hmem => hnew ((List.mem_map_of_injective h.injective).mp hmem)
    rw [List.map_cons, Model.propertiesAbove, Model.propertiesAbove.eq_2 model, hfound, hfound']
    simp only [Option.map_some, hnew, hnew', not_false_eq_true, dif_neg]
    rw [List.map_append, List.map_append, ← ihabove, ← ihrest, List.map_cons,
      DataDeclaration.supertypes_rename]
    rfl

theorem walk (types : List TypeExpr) :
    model'.walk (types.map (TypeExpr.rename f)) =
      (model.walk types).map (Property.rename f) :=
  h.propertiesAbove [] types

theorem walkOf (d : DataDeclaration) :
    model'.walkOf (d.rename f) = (model.walkOf d).map (Property.rename f) := by
  rw [Model.walkOf, DataDeclaration.supertypes_rename]
  exact h.propertiesAbove [d.symbol] d.supertypes

omit h in
theorem type?_rename (properties : Walk) (name : String) :
    Walk.type? (properties.map (Property.rename f)) name =
      (properties.type? name).map (TypeExpr.rename f) := by
  rw [Walk.type?, Walk.type?, List.findRev?_eq_find?_reverse,
    List.findRev?_eq_find?_reverse, ← List.map_reverse, List.find?_map, Option.map_map,
    Option.map_map]
  rfl

theorem type?_inherited (types : List TypeExpr) (name : String) :
    (model'.inherited (types.map (TypeExpr.rename f))).type? name =
      ((model.inherited types).type? name).map (TypeExpr.rename f) := by
  rw [Model.type?_inherited, Model.type?_inherited, h.walk, type?_rename]

theorem restates (d : DataDeclaration) (p : Property) :
    Model.restates (model'.inheritedBy (d.rename f)) (p.rename f) =
      Model.restates (model.inheritedBy d) p := by
  rw [Model.restates, Model.restates, type?_inheritedBy, type?_inheritedBy, h.walkOf]
  have hname : (p.rename f).name = p.name := rfl
  rw [hname, type?_rename, Option.any_map]
  simp only [Property.rename, TypeExpr.equal_rename h.injective]

theorem dropRestated (d : DataDeclaration) :
    model'.dropRestated (d.rename f) = (model.dropRestated d).rename f := by
  have hproperties : (d.properties.map (Property.rename f)).filter
      (fun p => !Model.restates (model'.inheritedBy (d.rename f)) p) =
      (d.properties.filter fun p => !Model.restates (model.inheritedBy d) p).map
        (Property.rename f) := by
    rw [List.filter_map]
    simp only [Function.comp_def, h.restates]
  simp only [Model.dropRestated, DataDeclaration.rename_properties, hproperties]
  rfl

omit h in
theorem lastOfEachName_rename (properties : List Property) :
    lastOfEachName (properties.map (Property.rename f)) =
      (lastOfEachName properties).map (Property.rename f) := by
  induction properties with
  | nil => rfl
  | cons p rest ih =>
    have hany : (rest.map (Property.rename f)).any (·.name == (p.rename f).name) =
        rest.any (·.name == p.name) := by
      rw [List.any_map]
      rfl
    rw [List.map_cons, lastOfEachName, lastOfEachName, hany, ih]
    split <;> rfl

theorem mem_presentNames_iff (d : DataDeclaration) (name : String) :
    name ∈ model'.presentNames (d.rename f) ↔ name ∈ model.presentNames d := by
  rw [← not_iff_not, notMem_presentNames_iff, notMem_presentNames_iff,
    DataDeclaration.parent_toList_rename, h.type?_inherited, Option.map_eq_none_iff]
  simp [DataDeclaration.rename_properties, Property.rename]

theorem implementedBy (d : DataDeclaration) : model'.implementedBy (d.rename f) =
    (model.implementedBy d).map (Property.rename f) := by
  have hmissing : (fun p : Property => decide (p.name ∉ model'.presentNames (d.rename f))) =
      fun p => decide (p.name ∉ model.presentNames d) := by
    funext p
    exact decide_eq_decide.mpr (not_congr (h.mem_presentNames_iff d p.name))
  unfold Model.implementedBy
  rw [hmissing, DataDeclaration.rename_interfaces, h.walk, List.filter_map]
  dsimp only
  rw [lastOfEachName_rename, List.map_map, List.map_map]
  rfl

theorem copyImplemented (d : DataDeclaration) :
    model'.copyImplemented (d.rename f) = (model.copyImplemented d).rename f := by
  by_cases hclass : d.isClass = true
  · have hclass' : (d.rename f).isClass = true := hclass
    rw [copyImplemented_of_isClass hclass, copyImplemented_of_isClass hclass', h.implementedBy]
    simp [DataDeclaration.rename]
  · have hclass' : (d.rename f).isClass ≠ true := hclass
    rw [copyImplemented_of_not_isClass hclass, copyImplemented_of_not_isClass hclass']

/-! ## Revival -/

omit h in
@[simp] theorem returnIfAbsent_rename (name : String) :
    (Statement.returnIfAbsent name).rename f = .returnIfAbsent name := by
  simp [Statement.returnIfAbsent, Statement.rename, Expression.rename]

theorem revivableGeneric? (s : Symbol) :
    model'.revivableGeneric? (f s) = (model.revivableGeneric? s).map (·.rename f) := by
  rw [Model.revivableGeneric?, Model.revivableGeneric?, h.revivable?]
  cases model.revivable? s with
  | none => rfl
  | some d =>
    have hsymbol : (f d.symbol == f s) = (d.symbol == s) := by
      rw [Bool.eq_iff_iff, beq_iff_eq, beq_iff_eq, h.injective.eq_iff]
    simp only [Option.map_some, Option.filter_some, DataDeclaration.rename_symbol, hsymbol,
      DataDeclaration.rename_typeParameters]
    split <;> rfl

omit h in
theorem identityOf_rename (t : TypeExpr) : (identityOf t).rename f = identityOf (t.rename f) := by
  simp [identityOf, Expression.rename]

omit h

mutual

theorem copyFunction (h : Mirrors f model model') : ∀ t : TypeExpr,
    model'.copyFunction (t.rename f) = (model.copyFunction t).rename f
  | .reference s [] => by
    rw [TypeExpr.rename_reference, List.map_nil, Model.copyFunction, Model.copyFunction,
      h.revivable?]
    cases model.revivable? s with
    | none => simp [identityOf_rename]
    | some d => simp [Expression.rename, Option.isSome_map]
  | .reference s (arg :: args) => by
    rw [TypeExpr.rename_reference, List.map_cons, Model.copyFunction, Model.copyFunction,
      h.revivableGeneric?]
    cases model.revivableGeneric? s with
    | none => simp [identityOf_rename]
    | some d =>
      simp [Expression.rename, Expression.renameAll, copyFunction h arg, copyFunctions h args]
  | .array element => by
    rw [TypeExpr.rename_array, Model.copyFunction, Model.copyFunction, copyFunction h element]
    simp [Expression.rename, Expression.apply]
  | .indexed _ value => by
    rw [TypeExpr.rename_indexed, Model.copyFunction, Model.copyFunction, copyFunction h value]
    simp [Expression.rename, Expression.apply]
  | .optional inner => by
    rw [TypeExpr.rename_optional, Model.copyFunction, Model.copyFunction, copyFunction h inner]
  | .union _ | .intersection _ | .shape _ | .function _ _ | .literal _ | .var _ | .primitive _
  | .verbatim _ | .any => by
    simp [Model.copyFunction, identityOf_rename, Expression.rename]

theorem copyFunctions (h : Mirrors f model model') : ∀ ts : List TypeExpr,
    model'.copyFunctions (ts.map (TypeExpr.rename f)) =
      Expression.renameAll f (model.copyFunctions ts)
  | [] => rfl
  | t :: rest => by
    rw [List.map_cons, Model.copyFunctions, Model.copyFunctions, Expression.renameAll,
      copyFunction h t, copyFunctions h rest]

end

include h

theorem copyProperty (p : Property) :
    model'.copyProperty (p.rename f) = (model.copyProperty p).rename f := by
  have hcopy : model'.copyFunction (p.rename f).type = (model.copyFunction p.type).rename f :=
    copyFunction h p.type
  simp only [Model.copyProperty, hcopy, Expression.isCallOf_rename]
  simp only [Statement.rename, Expression.rename]
  split <;> simp [Expression.rename, Expression.apply, Property.rename]

theorem fromData (d : DataDeclaration) :
    model'.fromData (d.rename f) = (model.fromData d).rename f := by
  have hcopied : (d.properties.map (Property.rename f)).filter (fun p => Option.isNone
      ((model'.inherited (d.parent.toList.map (TypeExpr.rename f))).type? p.name)) =
      (d.properties.filter fun p =>
        ((model.inherited d.parent.toList).type? p.name).isNone).map (Property.rename f) := by
    rw [List.filter_map]
    simp only [Function.comp_def, h.type?_inherited, Option.isNone_map, Property.rename]
  have hstatements : ∀ properties : List Property,
      (properties.map (Property.rename f)).map model'.copyProperty =
        (properties.map model.copyProperty).map (Statement.rename f) := by
    intro properties
    rw [List.map_map, List.map_map]
    exact List.map_congr_left fun p _ => h.copyProperty p
  have hparent : (d.rename f).parent.isSome = d.parent.isSome := Option.isSome_map
  simp only [Model.fromData, DataDeclaration.parent_toList_rename, hparent,
    DataDeclaration.rename_properties, hcopied, DataDeclaration.selfType_rename,
    DataDeclaration.constructorParameters_rename, hstatements]
  rw [← DataDeclaration.staticMethod_rename]
  congr 1
  · simp [Parameter.rename]
  · cases d.parent <;> simp [Statement.rename, Expression.rename, Expression.apply]

theorem fromDataUnion (d : DataDeclaration) :
    model'.fromDataUnion (d.rename f) = (model.fromDataUnion d).rename f := by
  have hmembers : d.unionMembers.filterMap model'.findOrigin? =
      (d.unionMembers.filterMap model.findOrigin?).map (·.rename f) := by
    rw [List.map_filterMap]
    exact List.filterMap_congr fun entity _ => h.findOrigin? entity
  simp only [Model.fromDataUnion, DataDeclaration.rename_unionMembers, hmembers, List.filterMap_map]
  generalize d.unionMembers.filterMap model.findOrigin? = members
  cases hunion : d.unionAlias <;>
    simp [Method.rename, Parameter.rename, Statement.rename, Expression.rename, hunion,
      Expression.apply, List.map_filterMap, Function.comp_def]

theorem revivalMethods (d : DataDeclaration) :
    model'.revivalMethods (d.rename f) = (model.revivalMethods d).map (Method.rename f) := by
  have hmethods : (if d.typeParameters.isEmpty then [] else [(d.rename f).fromDataFn]) ++
      model'.fromData (d.rename f) :: d.methods.map (Method.rename f) =
      ((if d.typeParameters.isEmpty then [] else [d.fromDataFn]) ++
        model.fromData d :: d.methods).map (Method.rename f) := by
    rw [h.fromData, DataDeclaration.fromDataFn_rename]
    split <;> simp
  simp only [Model.revivalMethods, DataDeclaration.rename_typeParameters,
    DataDeclaration.rename_methods, h.fromDataUnion, DataDeclaration.rename_unionAlias,
    Option.isSome_map]
  split
  · rw [List.map_insertIdx]
    exact congrArg (fun methods => methods.insertIdx 1 ((model.fromDataUnion d).rename f)) hmethods
  · exact hmethods

/-! ## Tagged unions -/

theorem unionDefinition (d : DataDeclaration) :
    model'.unionDefinition (d.rename f) = (model.unionDefinition d).rename f := by
  simp only [Model.unionDefinition, DataDeclaration.rename_unionMembers, TypeExpr.rename_union,
    List.map_filterMap, h.findOrigin?, Option.map_map]
  rfl

/-! ## Services -/

theorem contentCopy (content : TypeExpr) :
    model'.contentCopy (content.rename f) = (model.contentCopy content).rename f := by
  cases content with
  | primitive kind =>
    cases kind with
    | void => rfl
    | _ => exact copyFunction h (.primitive _)
  | _ => exact copyFunction h _

omit h in
theorem insertCopyFunction_rename (copy : Expression)
    (entries : List (String × Option Expression)) :
    insertCopyFunction (copy.rename f) (Expression.renameEntries f entries) =
      Expression.renameEntries f (insertCopyFunction copy entries) := by
  simp [insertCopyFunction, List.takeWhile_map, List.dropWhile_map, Function.comp_def]

theorem addCopyFunction (response : Symbol) (m : Method) :
    model'.addCopyFunction (f response) (m.rename f) =
      (model.addCopyFunction response m).rename f := by
  obtain ⟨name, modifiers, typeParameters, parameters, result, body, comments⟩ := m
  rcases result with
    ⟨symbol, _ | ⟨content, _ | ⟨_, _⟩⟩⟩ | _ | _ | _ | _ | _ | _ | _ | _ | _ | _ | _ | _
  case reference.cons.nil =>
    rcases body with _ | _ | ⟨statement, _ | ⟨_, _⟩⟩
    case some.cons.nil =>
      cases statement with
      | returns value =>
        cases value with
        | none => rfl
        | some value =>
          cases value with
          | call callee types args =>
            rcases args with _ | ⟨arg, args⟩
            · rfl
            · cases arg with
              | object entries =>
                simp only [Model.addCopyFunction, Method.rename, TypeExpr.rename_reference,
                  List.map_cons, List.map_nil, Option.map_some, Statement.rename, Expression.rename,
                  Expression.renameAll, h.injective.eq_iff, h.contentCopy,
                  insertCopyFunction_rename]
                split <;> simp [Statement.rename, Expression.rename]
              | _ => rfl
          | _ => rfl
      | _ => rfl
    case some.cons.cons => simp [Model.addCopyFunction, Method.rename]
    all_goals rfl
  all_goals rfl

end Mirrors

end Model

end Typings
