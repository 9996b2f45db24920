import Typings.Digraph
import Typings.Model.Basic

/-!
# Inherited properties

A declaration inherits the properties of its supertypes and of everything above them. Supertypes
that the model does not declare contribute nothing, and a declaration is not entered again on a way
through itself, so a walk ends on cyclic hierarchies. What is inherited is collected twice: as a map
from names to types, and as a list of properties to copy.

## Main definitions

* `Model.Inherited`, `Model.collectTypes`: the types of inherited names, and the walk that collects
  them; the nearest declaration of a name wins.
* `Model.inherited`, `Model.inheritedBy`: what is inherited through supertypes, and by a
  declaration.
* `Model.withoutRestated`: drops properties that restate an inherited one.
* `Model.propertiesAbove`: the properties of supertypes and of all their ancestors.
* `Model.withImplemented`: copies the properties of interfaces into the classes that implement them.
-/

namespace Typings

namespace Model

theorem symbol_mem_of_supertype? {model : Model} {type : TypeExpr} {d : DataDeclaration}
    (h : model.supertype? type = some d) : d.symbol ∈ model.data.map (·.symbol) := by
  obtain ⟨symbol, _, found⟩ := Option.bind_eq_some_iff.mp h
  exact List.mem_map_of_mem (List.mem_of_find?_eq_some found)

structure NamedType where
  name : String
  type : TypeExpr

/-- The types of inherited names, each name once. -/
abbrev Inherited := List NamedType

namespace Inherited

def type? (inherited : Inherited) (name : String) : Option TypeExpr :=
  (inherited.find? (·.name == name)).map (·.type)

/-- Gives a name a type, in place of the one that it has. -/
def insert (name : String) (type : TypeExpr) : Inherited → Inherited
  | [] => [⟨name, type⟩]
  | entry :: rest =>
    if entry.name = name then ⟨name, type⟩ :: rest else entry :: insert name type rest

/-- Gives the names of properties their types, one after the other. -/
def insertAll (properties : List Property) (inherited : Inherited) : Inherited :=
  properties.foldl (fun inherited p => inherited.insert p.name p.type) inherited

end Inherited

/-- Adds the types of names that are inherited through supertypes to what was collected before. The
declarations on the way are in `path`. -/
def collectTypes (model : Model) (path : List Symbol) (collected : Inherited) :
    List TypeExpr → Inherited
  | [] => collected
  | type :: rest =>
    match _found : model.supertype? type with
    | none => collectTypes model path collected rest
    | some d =>
      if _again : d.symbol ∈ path then collectTypes model path collected rest
      else
        -- ancestors come first, so the types of nearer declarations replace theirs
        let above := collectTypes model (d.symbol :: path) collected d.supertypes
        collectTypes model path (above.insertAll d.properties) rest
termination_by supertypes => (unseen (model.data.map (·.symbol)) path, supertypes.length)
decreasing_by
  · exact Prod.Lex.right _ (by simp)
  · exact Prod.Lex.right _ (by simp)
  · exact Prod.Lex.left _ _ (unseen_cons_lt (symbol_mem_of_supertype? _found) _again)
  · exact Prod.Lex.right _ (by simp)

/-- What is inherited through the given supertypes. -/
def inherited (model : Model) (supertypes : List TypeExpr) : Inherited :=
  model.collectTypes [] [] supertypes

def inheritedBy (model : Model) (d : DataDeclaration) : Inherited :=
  model.collectTypes [d.symbol] [] d.supertypes

/-! ## Restated properties -/

/-- Whether a property says again what its declaration inherits. -/
def restates (inherited : Inherited) (p : Property) : Bool :=
  !p.own && (inherited.type? p.name).any (·.equal p.type)

/-- The declaration without the properties that restate inherited ones. -/
def dropRestated (model : Model) (d : DataDeclaration) : DataDeclaration :=
  let inherited := model.inheritedBy d
  { d with properties := d.properties.filter fun p => !restates inherited p }

/-- The model without the properties that restate inherited ones. -/
def withoutRestated (model : Model) : Model :=
  { model with data := model.data.map model.dropRestated }

/-- The names of the properties that restate inherited ones, declaration by declaration. -/
def restatedNames (model : Model) : List String :=
  model.data.flatMap fun d =>
    let inherited := model.inheritedBy d
    (d.properties.filter (restates inherited)).map (·.name)

/-! ## Implemented properties -/

/-- The properties of supertypes and of everything above them, ancestors before their descendants.
The declarations on the way are in `path`. -/
def propertiesAbove (model : Model) (path : List Symbol) : List TypeExpr → List Property
  | [] => []
  | type :: rest =>
    match _found : model.supertype? type with
    | none => propertiesAbove model path rest
    | some d =>
      if _again : d.symbol ∈ path then propertiesAbove model path rest
      else
        propertiesAbove model (d.symbol :: path) d.supertypes ++ d.properties ++
          propertiesAbove model path rest
termination_by supertypes => (unseen (model.data.map (·.symbol)) path, supertypes.length)
decreasing_by
  · exact Prod.Lex.right _ (by simp)
  · exact Prod.Lex.right _ (by simp)
  · exact Prod.Lex.left _ _ (unseen_cons_lt (symbol_mem_of_supertype? _found) _again)
  · exact Prod.Lex.right _ (by simp)

/-- Puts copies of properties in front of the listed ones, one after the other. A name that is
present gets no copy, and one that gets a copy is present from then on. -/
def putInFront (present : List String) (listed : List Property) : List Property → List Property
  | [] => listed
  | p :: rest =>
    if p.name ∈ present then putInFront present listed rest
    else putInFront (p.name :: present) ({ p with own := false } :: listed) rest

/-- The names that a declaration lists or inherits from its parent. -/
def presentNames (model : Model) (d : DataDeclaration) : List String :=
  d.properties.map (·.name) ++ (model.inherited d.parent.toList).map (·.name)

/-- A class with the properties that it implements in front, from the last one on. An interface
stays as it is. -/
def copyImplemented (model : Model) (d : DataDeclaration) : DataDeclaration :=
  if d.isClass then
    let implemented := model.propertiesAbove [] d.interfaces
    { d with
      properties := putInFront (model.presentNames d) d.properties implemented.reverse }
  else d

/-- The model whose classes declare the properties that they implement. -/
def withImplemented (model : Model) : Model :=
  { model with data := model.data.map model.copyImplemented }

end Model

end Typings
