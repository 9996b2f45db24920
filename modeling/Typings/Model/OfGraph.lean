import Typings.CompileError
import Typings.Mapping.Basic
import Typings.Model.Basic
import Typings.Source.Hierarchy

/-!
# Building a model

Every class and every enum of a source graph becomes a declaration.

## Main definitions

* `Builder`: what declarations are built with.
* `Builder.expand`: the properties of a class, pulled ones expanded in place.
* `Builder.classDeclaration`, `Builder.enumDeclaration`: the declarations.
* `Builder.model`: the model of a graph without cyclic pulls.
-/

namespace Typings

/-- A graph with the settings and the mapper that its declarations are built with. -/
structure Builder where
  graph : SourceGraph
  settings : Settings
  mapper : Mapper

namespace Builder

variable (builder : Builder)

def isClassLike (c : SourceClass) : Bool :=
  builder.settings.classesAsClasses && !c.isInterface

/-- The type of a supertype; one that is not recognised or could be anything is dropped. -/
def supertype? (source : SourceType) : Work (Option TypeExpr) := do
  match ← builder.mapper.map source with
  | .error _ | .ok .any =>
    Work.report .trace .building ("dropping supertype '" ++ source.shown ++ "'")
    pure none
  | .ok type => pure (some type)

/-- The type of the parent of a class, if there is one that is not dropped. -/
def parentType? (c : SourceClass) : Work (Option TypeExpr) :=
  match c.parent with
  | some source => builder.supertype? source
  | none => pure none

/-- The types of supertypes, dropped ones left out. -/
def supertypes (sources : List SourceType) : Work (List TypeExpr) := do
  match sources with
  | [] => pure []
  | source :: rest =>
    let first ← builder.supertype? source
    let others ← supertypes rest
    pure (first.toList ++ others)

/-- Whether a supertype is declared as something that becomes a class. -/
def extendsClass (source : SourceType) : Bool :=
  (source.name?.bind builder.graph.findClass?).any builder.isClassLike

/-- The modifiers of properties. -/
def modifiers : Modifiers :=
  { readonly := builder.settings.declarePropertiesAsReadonly }

/-- A property that does not pull, named with affixes. A type that is not recognised becomes `any`
and is warned about. -/
def plainProperty (owner : SourceClass) (before after : String) (p : SourceProperty) :
    Work Property := do
  let type ← match ← builder.mapper.map p.type with
    | .ok type => pure type
    | .error unresolved =>
      Work.warn (.ofUnresolvedType unresolved.source owner.name p.name)
      pure .any
  pure
    { name := before ++ p.name ++ after
      type := if p.optional then type.orAbsent else type
      modifiers := builder.modifiers
      comments := p.comments }

/-- The class that a property pulls from, if it is declared. -/
def pulledClass? (p : SourceProperty) : Option SourceClass :=
  p.type.nullableName?.bind builder.graph.findClass?

theorem name_mem_of_pulledClass? {p : SourceProperty} {target : SourceClass}
    (h : builder.pulledClass? p = some target) :
    target.name ∈ builder.graph.classes.map (·.name) := by
  obtain ⟨name, _, found⟩ := Option.bind_eq_some_iff.mp h
  exact List.mem_map_of_mem (List.mem_of_find?_eq_some found)

/-- The properties of a class. A property that pulls is replaced by the properties of the class that
it points to, named with the affixes of all pulls on the way. The classes on the way are in `path`;
a class on the way is not entered again, which does not happen in a graph without cyclic pulls. -/
def expand (path : List String) (owner : SourceClass) (before after : String) :
    List SourceProperty → Work (List Property)
  | [] => pure []
  | p :: rest =>
    let first : Work (List Property) :=
      match p.pull with
      | none => List.singleton <$> builder.plainProperty owner before after p
      | some pull =>
        match _found : builder.pulledClass? p with
        | none => do
          Work.warn (.ofMissingPull p.type.shown owner.name p.name)
          pure []
        | some target =>
          if _again : target.name ∈ path then pure []
          else
            -- affixes nest: those of the first pull are outermost
            expand (target.name :: path) target (before ++ pull.before) (pull.after ++ after)
              target.properties
    do
      let properties ← first
      let others ← expand path owner before after rest
      pure (properties ++ others)
termination_by properties => (unseen (builder.graph.classes.map (·.name)) path, properties.length)
decreasing_by
  · exact Prod.Lex.left _ _ (unseen_cons_lt (builder.name_mem_of_pulledClass? _found) _again)
  · exact Prod.Lex.right _ (by simp)

/-- The values by which the objects of a class and of the classes below it are told apart, each
once. -/
def discriminantLiterals (c : SourceClass) : List String :=
  ((builder.graph.selfAndDescendants c.name).filterMap fun entity =>
    (builder.graph.findClass? entity).bind (·.discriminantLiteral)).eraseDups

/-- The type of a discriminant: the known values, any text if none is known. -/
def discriminantType (c : SourceClass) : TypeExpr :=
  match builder.discriminantLiterals c with
  | [] => .string
  | literals => .literalUnion literals

/-- The properties of a class with its discriminant in front, unless it is among them. -/
def withDiscriminant (c : SourceClass) (properties : List Property) : List Property :=
  match c.discriminantProperty with
  | none => properties
  | some name =>
    if properties.any (·.name == name) then properties
    else
      { name, type := builder.discriminantType c, own := true, modifiers := builder.modifiers } ::
        properties

/-- The declaration of a class. A class cannot extend what is not a class, so such a parent counts
as an interface. -/
def classDeclaration (c : SourceClass) : Work DataDeclaration := do
  let symbol ← Work.entitySymbol c.name
  let isClass := builder.isClassLike c
  let parent ← builder.parentType? c
  let interfaces ← builder.supertypes c.interfaces
  let properties ← builder.expand [c.name] c "" "" c.properties
  -- a class implements a parent that does not become a class
  let implementsParent := isClass && !c.parent.any builder.extendsClass
  pure
    { origin := some c.name
      symbol
      isClass
      typeParameters := c.typeParameters
      parent := if implementsParent then none else parent
      interfaces := if implementsParent then parent.toList ++ interfaces else interfaces
      properties := builder.withDiscriminant c properties
      comments := c.comments
      discriminantProperty := c.discriminantProperty
      discriminantLiteral := c.discriminantLiteral
      unionMembers := c.unionMembers }

/-- Whether an enum has numbers for values. -/
def enumKind (e : SourceEnum) : EnumKind :=
  -- an enum without members counts as one of texts
  if !e.members.isEmpty && e.members.all (fun m => m.value.any (·.isNumber)) then .numberBased
  else .stringBased

/-- A member of an enum; in an enum of texts its value is its text, or else its name. -/
def enumMember (kind : EnumKind) (m : SourceEnumMember) : EnumMember :=
  { name := m.name
    value :=
      match kind with
      | .stringBased => some (.text ((m.value.bind (·.text?)).getD m.name))
      | .numberBased => m.value
    comments := m.comments }

def enumDeclaration (e : SourceEnum) : Work EnumDeclaration := do
  let symbol ← Work.entitySymbol e.name
  let kind := enumKind e
  pure
    { origin := e.name
      symbol
      kind
      members := e.members.map (enumMember kind)
      comments := e.comments }

/-- The declarations of all classes and enums. -/
def declarations : Work Model := do
  let data ← builder.graph.classes.mapM builder.classDeclaration
  let enums ← builder.graph.enums.mapM enumDeclaration
  Work.report .debug .building
    ("built " ++ toString data.length ++ " data and " ++ toString enums.length ++
      " enum declarations")
  pure { data, enums }

/-- The size of the graph, as it is reported with the work on it. -/
def measures : List (String × Nat) :=
  [("classes", builder.graph.classes.length), ("enums", builder.graph.enums.length)]

/-- The model of the graph, unless its pulls are cyclic. -/
def model : ExceptT CompileError Work Model :=
  match builder.graph.pullCycle? with
  | some cycle => throw (.pullCycle cycle)
  | none => ExceptT.lift (Work.during ⟨"build", builder.measures⟩ builder.declarations)

end Builder

end Typings
