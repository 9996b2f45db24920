import Typings.Session
import Typings.Settings.Basic
import Typings.Source.Basic
import Typings.Type.Basic

/-!
# Mapping source types

A chain of resolvers maps source types to types of the target language. Each resolver recognises
some source types; the first one that recognises a type decides what becomes of it.

## Main definitions

* `Resolver`: the resolvers.
* `Mapper`: a chain of resolvers over settings and declared names.
* `Mapper.plan?`: what a resolver makes of a named type that it recognises.
* `Mapper.map`: the type that a source type is mapped to.
-/

namespace Typings

/-- A part of a mapping chain. -/
inductive Resolver where
  /-- Types that the settings map to a target type as written. -/
  | custom
  /-- Texts, numbers, truth values, dates, nothing and anything. -/
  | primitive
  /-- Types whose values may be absent. -/
  | optional
  /-- Containers that are written as their content. -/
  | wrapper
  /-- Sequences and maps. -/
  | container
  | array
  /-- Type variables. -/
  | var
  | union
  /-- Classes and enums of the source graph. -/
  | declared
  deriving Repr, DecidableEq, Inhabited

def Resolver.name : Resolver → String
  | custom => "custom"
  | primitive => "primitive"
  | optional => "optional"
  | wrapper => "wrapper"
  | container => "container"
  | array => "array"
  | var => "variable"
  | union => "union"
  | declared => "declared"

/-- The built-in chain. -/
def Resolver.builtIn : List Resolver :=
  [custom, primitive, optional, wrapper, container, array, var, union, declared]

/-- What becomes of a named type that a resolver recognises. -/
inductive Plan where
  /-- It is mapped to the given type. -/
  | fixed (type : TypeExpr)
  /-- Its type argument at the position is mapped, `any` if it is missing, and the result is built
  upon. -/
  | argument (position : Nat) (build : TypeExpr → TypeExpr)
  /-- Its type arguments are mapped, and it becomes a reference to the declaration of its name. -/
  | reference

/-- A chain of resolvers with what they look names up in. -/
structure Mapper where
  chain : List Resolver
  known : KnownTypes
  /-- Target types as written, by source type. -/
  customMappings : List (String × String)
  /-- The names of the declared classes and enums. -/
  declaredNames : List String
  deriving Repr, DecidableEq, Inhabited

namespace Mapper

def ofChain (chain : List Resolver) (settings : Settings) (graph : SourceGraph) : Mapper :=
  { chain
    known := settings.knownTypes
    customMappings := settings.customTypeMappings
    declaredNames := graph.declaredNames }

def builtIn (settings : Settings) (graph : SourceGraph) : Mapper :=
  ofChain Resolver.builtIn settings graph

/-- The type that a known primitive name stands for. -/
def primitive? (mapper : Mapper) (name : String) : Option TypeExpr :=
  let known := mapper.known
  if known.strings.contains name then some (.primitive .string)
  else if known.numbers.contains name then some (.primitive .number)
  else if known.booleans.contains name then some (.primitive .boolean)
  else if known.dates.contains name then some (.primitive .temporal)
  else if known.voids.contains name then some (.primitive .void)
  else if known.any.contains name then some .any
  else none

/-- What a resolver makes of a named type, if it recognises it. -/
def plan? (mapper : Mapper) (name : String) : Resolver → Option Plan
  | .custom => (mapper.customMappings.lookup name).map fun text => .fixed (.verbatim text)
  | .primitive => (mapper.primitive? name).map .fixed
  | .optional =>
    if mapper.known.optionals.contains name then some (.argument 0 .orAbsent) else none
  | .wrapper => if mapper.known.wrappers.contains name then some (.argument 0 id) else none
  | .container =>
    if mapper.known.sequences.contains name then some (.argument 0 .array)
    else if mapper.known.maps.contains name then some (.argument 1 .stringMap)
    else none
  | .declared => if mapper.declaredNames.contains name then some .reference else none
  | .array | .var | .union => none

/-- The first resolver of the chain that recognises a named type, and what it makes of it. -/
def firstPlan? (mapper : Mapper) (name : String) : Option (Resolver × Plan) :=
  mapper.chain.findSome? fun resolver => (mapper.plan? name resolver).map (resolver, ·)

/-- A type that no resolver recognises, as it is shown in messages. -/
structure Unresolved where
  source : String
  deriving Repr, DecidableEq, Inhabited

def reportResolved (resolver : Resolver) (source : SourceType) : Work Unit :=
  Work.report .trace .mapping (resolver.name ++ " resolved '" ++ source.shown ++ "'")

/-- The outcome for a type that no resolver recognises. -/
def unresolved (source : SourceType) : Work (Except Unresolved TypeExpr) := do
  Work.report .trace .mapping ("no resolver handled '" ++ source.shown ++ "'")
  pure (.error ⟨source.shown⟩)

/-- The reference to a declaration, once its type arguments are mapped. -/
def refer (name : String) :
    Except Unresolved (List TypeExpr) → Work (Except Unresolved TypeExpr)
  | .error e => pure (.error e)
  | .ok args => do
    let symbol ← Work.entitySymbol name
    pure (.ok (.reference symbol args))

mutual

/-- Maps a type. Each type is reported after its parts. -/
def map (mapper : Mapper) : SourceType → Work (Except Unresolved TypeExpr)
  | .named name args => do
    match mapper.firstPlan? name with
    | none => unresolved (.named name args)
    | some (resolver, plan) =>
      let result ← match plan with
        | .fixed type => pure (.ok type)
        | .argument position build => do
          let mapped ← mapNth mapper args position
          pure (mapped.map build)
        | .reference => do
          let mapped ← mapAll mapper args
          refer name mapped
      reportResolved resolver (.named name args)
      pure result
  | .nullable inner => do
    if mapper.chain.contains .optional then
      let result ← map mapper inner
      reportResolved .optional (.nullable inner)
      pure (result.map .orAbsent)
    else unresolved (.nullable inner)
  | .array element => do
    if mapper.chain.contains .array then
      let result ← map mapper element
      reportResolved .array (.array element)
      pure (result.map .array)
    else unresolved (.array element)
  | .var name => do
    if mapper.chain.contains .var then
      reportResolved .var (.var name)
      pure (.ok (.var name))
    else unresolved (.var name)
  | .union types => do
    if mapper.chain.contains .union then
      let result ← mapAll mapper types
      reportResolved .union (.union types)
      pure (result.map .union)
    else unresolved (.union types)
termination_by structural source => source

/-- Maps the type at a position, `any` if there is none. -/
def mapNth (mapper : Mapper) : List SourceType → Nat → Work (Except Unresolved TypeExpr)
  | [], _ => pure (.ok .any)
  | source :: _, 0 => map mapper source
  | _ :: rest, position + 1 => mapNth mapper rest position

/-- Maps the types of a list up to the first that is not recognised. -/
def mapAll (mapper : Mapper) : List SourceType → Work (Except Unresolved (List TypeExpr))
  | [] => pure (.ok [])
  | source :: rest => do
    match ← map mapper source with
    | .error e => pure (.error e)
    | .ok type =>
      match ← mapAll mapper rest with
      | .error e => pure (.error e)
      | .ok types => pure (.ok (type :: types))

end

end Mapper

end Typings
