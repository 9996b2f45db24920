import Typings.Json.Record
import Typings.Source.Basic

/-!
# Source graphs as JSON

Fields that a record does not have are ignored, whatever their values are, except inside types and
query parameters: every part of those must be readable.

A type says its kind by name. Where it is nested in another type or in a query parameter, it may say
it by position as well.

## Main definitions

* `SourceGraph.ofJson?`: the graph that a JSON value describes, if it describes one.
* `SourceGraph.toJson`: a graph as JSON; parts that say nothing are left out.
-/

namespace Typings

open Json (readText? readTexts? readBool? readList? readChoice?)

/-- Reads a literal value. -/
def Literal.ofJson? : Json → Option Literal
  | .boolean b => some (.boolean b)
  | .natural n => (Binary64.ofNat? n).map .number
  | .number x => some (.number x)
  | .text s => some (.text s)
  | _ => none

def Literal.toJson : Literal → Json
  | .boolean b => .boolean b
  | .number x => .number x
  | .text s => .text s

namespace SourceType

/-- The names of the kinds of types. -/
def kinds : List String :=
  ["named", "variable", "array", "union", "nullable"]

/-- Reads the kind of a type: its name or, if the type is nested, its position. -/
def kind? (nested : Bool) : Json → Option String
  | .text name => some name
  | .natural position => if nested then kinds[position]? else none
  | _ => none

/-- The kind of a type and the value that holds its parts. -/
def tagged? (nested : Bool) : Json → Option (String × Json)
  | .object fields =>
    -- the tag is looked up before the parts are read, and it may not be repeated
    if fields.countP (·.1 == "kind") = 1 then
      ((fields.lookup "kind").bind (kind? nested)).map (·, .object fields)
    else none
  -- as a list, a type starts with its kind
  | .array (kind :: items) => (kind? nested kind).map (·, .array items)
  | _ => none

/-- Reads a type from a value that is nested less than `height` deep. -/
def read? : Nat → Bool → Json → Option SourceType
  | 0, _, _ => none
  | height + 1, nested, value => do
    let (kind, value) ← tagged? nested value
    match kind with
    | "named" =>
      let record ← Record.ofJson? .json ["name", "args"] value
      let name ← record.required? "name" readText?
      let args ← record.default? "args" [] (readList? (read? height true))
      pure (named name args)
    | "variable" =>
      let record ← Record.ofJson? .json ["name"] value
      let name ← record.required? "name" readText?
      pure (var name)
    | "array" =>
      let record ← Record.ofJson? .json ["element"] value
      let element ← record.required? "element" (read? height true)
      pure (array element)
    | "union" =>
      let record ← Record.ofJson? .json ["types"] value
      let types ← record.required? "types" (readList? (read? height true))
      pure (union types)
    | "nullable" =>
      let record ← Record.ofJson? .json ["inner"] value
      let inner ← record.required? "inner" (read? height true)
      pure (nullable inner)
    | _ => none

/-- Reads a type; `nested` tells whether it is part of another type or of a query parameter. -/
def ofJson? (nested : Bool) (value : Json) : Option SourceType :=
  if value.isReadable then read? value.height nested value else none

mutual

def toJson : SourceType → Json
  | named name [] => .object [("kind", .text "named"), ("name", .text name)]
  | named name (arg :: args) =>
    .object [("kind", .text "named"), ("name", .text name),
      ("args", .array (arg.toJson :: allToJson args))]
  | var name => .object [("kind", .text "variable"), ("name", .text name)]
  | array element => .object [("kind", .text "array"), ("element", element.toJson)]
  | union types => .object [("kind", .text "union"), ("types", .array (allToJson types))]
  | nullable inner => .object [("kind", .text "nullable"), ("inner", inner.toJson)]

def allToJson : List SourceType → List Json
  | [] => []
  | t :: rest => t.toJson :: allToJson rest

end

end SourceType

/-- The names of the kinds of classes. -/
def ClassKind.choices : List (String × ClassKind) :=
  [("class", .plainClass), ("interface", .plainInterface)]

def ClassKind.name : ClassKind → String
  | plainClass => "class"
  | plainInterface => "interface"

/-- Reads a pull. -/
def Pull.ofJson? (value : Json) : Option Pull := do
  let record ← Record.ofJson? .json ["prefix", "suffix"] value
  let before ← record.default? "prefix" "" readText?
  let after ← record.default? "suffix" "" readText?
  pure { before, after }

/-- A field, left out if the value is absent. -/
def optionalField {α : Type} (name : String) (value : Option α) (toJson : α → Json) :
    List (String × Json) :=
  value.toList.map fun v => (name, toJson v)

/-- A field with a list, left out if the list is empty. -/
def listField {α : Type} (name : String) (values : List α) (toJson : α → Json) :
    List (String × Json) :=
  if values.isEmpty then [] else [(name, .array (values.map toJson))]

def Pull.toJson (pull : Pull) : Json :=
  .object [("prefix", .text pull.before), ("suffix", .text pull.after)]

/-- Reads a property; `nested` tells whether it is part of a query parameter. -/
def SourceProperty.ofJson? (nested : Bool) (value : Json) : Option SourceProperty := do
  let record ← Record.ofJson? .json ["name", "type", "optional", "pull", "comments"] value
  let name ← record.required? "name" readText?
  let type ← record.required? "type" (SourceType.ofJson? nested)
  let optional ← record.default? "optional" false readBool?
  let pull ← record.optional? "pull" Pull.ofJson?
  let comments ← record.default? "comments" [] readTexts?
  pure { name, type, optional, pull, comments }

def SourceProperty.toJson (p : SourceProperty) : Json :=
  .object ([("name", .text p.name), ("type", p.type.toJson), ("optional", .boolean p.optional)] ++
    optionalField "pull" p.pull Pull.toJson ++ listField "comments" p.comments .text)

/-- Reads a class; `nested` tells whether it is part of a query parameter. -/
def SourceClass.ofJson? (nested : Bool) (value : Json) : Option SourceClass := do
  let record ← Record.ofJson? .json
    ["name", "kind", "type_parameters", "parent", "interfaces", "properties",
     "discriminant_property", "discriminant_literal", "tagged_union_members", "comments"] value
  let name ← record.required? "name" readText?
  let kind ← record.default? "kind" ClassKind.plainClass (readChoice? .json ClassKind.choices)
  let typeParameters ← record.default? "type_parameters" [] readTexts?
  let parent ← record.optional? "parent" (SourceType.ofJson? nested)
  let interfaces ← record.default? "interfaces" [] (readList? (SourceType.ofJson? nested))
  let properties ← record.default? "properties" [] (readList? (SourceProperty.ofJson? nested))
  let discriminantProperty ← record.optional? "discriminant_property" readText?
  let discriminantLiteral ← record.optional? "discriminant_literal" readText?
  let unionMembers ← record.default? "tagged_union_members" [] readTexts?
  let comments ← record.default? "comments" [] readTexts?
  pure { name, kind, typeParameters, parent, interfaces, properties, discriminantProperty,
         discriminantLiteral, unionMembers, comments }

def SourceClass.toJson (c : SourceClass) : Json :=
  .object ([("name", .text c.name), ("kind", .text c.kind.name)] ++
    listField "type_parameters" c.typeParameters .text ++
    optionalField "parent" c.parent SourceType.toJson ++
    listField "interfaces" c.interfaces SourceType.toJson ++
    [("properties", .array (c.properties.map SourceProperty.toJson))] ++
    optionalField "discriminant_property" c.discriminantProperty .text ++
    optionalField "discriminant_literal" c.discriminantLiteral .text ++
    listField "tagged_union_members" c.unionMembers .text ++
    listField "comments" c.comments .text)

def SourceEnumMember.ofJson? (value : Json) : Option SourceEnumMember := do
  let record ← Record.ofJson? .json ["name", "value", "comments"] value
  let name ← record.required? "name" readText?
  let value ← record.optional? "value" Literal.ofJson?
  let comments ← record.default? "comments" [] readTexts?
  pure { name, value, comments }

def SourceEnumMember.toJson (m : SourceEnumMember) : Json :=
  .object ([("name", .text m.name)] ++ optionalField "value" m.value Literal.toJson ++
    listField "comments" m.comments .text)

/-- Reads an enum. -/
def SourceEnum.ofJson? (value : Json) : Option SourceEnum := do
  let record ← Record.ofJson? .json ["name", "members", "comments"] value
  let name ← record.required? "name" readText?
  let members ← record.required? "members" (readList? SourceEnumMember.ofJson?)
  let comments ← record.default? "comments" [] readTexts?
  pure { name, members, comments }

def SourceEnum.toJson (e : SourceEnum) : Json :=
  .object ([("name", .text e.name), ("members", .array (e.members.map SourceEnumMember.toJson))] ++
    listField "comments" e.comments .text)

/-- Reads a named value of an endpoint; `nested` tells whether it is a query parameter. -/
def EndpointParam.ofJson? (nested : Bool) (value : Json) : Option EndpointParam := do
  let record ← Record.ofJson? .json ["name", "type"] value
  let name ← record.required? "name" readText?
  let type ← record.required? "type" (SourceType.ofJson? nested)
  pure { name, type }

/-- A named value of an endpoint as JSON. -/
def EndpointParam.toJson (p : EndpointParam) : Json :=
  .object [("name", .text p.name), ("type", p.type.toJson)]

/-- Reads the class of a bean; it stands in an object, never in an array. -/
def QueryParam.bean? : Json → Option SourceClass
  | .object fields => do
    let record ← Record.ofJson? .json ["bean"] (.object fields)
    record.required? "bean" (SourceClass.ofJson? true)
  | _ => none

/-- Reads a query parameter: a single one if the value describes one, else a bean. -/
def QueryParam.ofJson? (value : Json) : Option QueryParam :=
  if value.isReadable then
    match EndpointParam.ofJson? true value with
    | some param => some (.single param)
    | none => (QueryParam.bean? value).map .bean
  else none

def QueryParam.toJson : QueryParam → Json
  | single param => param.toJson
  | bean c => .object [("bean", c.toJson)]

/-- Reads an endpoint. -/
def Endpoint.ofJson? (value : Json) : Option Endpoint := do
  let record ← Record.ofJson? .json
    ["name", "http_method", "path", "resource", "group_annotation", "path_params", "query_params",
     "entity", "return_type", "comments"] value
  let name ← record.required? "name" readText?
  let httpMethod ← record.required? "http_method" readText?
  let path ← record.required? "path" readText?
  let resource ← record.required? "resource" readText?
  let groupMark ← record.optional? "group_annotation" readText?
  let pathParams ← record.default? "path_params" [] (readList? (EndpointParam.ofJson? false))
  let queryParams ← record.default? "query_params" [] (readList? QueryParam.ofJson?)
  let entity ← record.optional? "entity" (EndpointParam.ofJson? false)
  let returnType ← record.optional? "return_type" (SourceType.ofJson? false)
  let comments ← record.default? "comments" [] readTexts?
  pure { name, httpMethod, path, resource, groupMark, pathParams, queryParams, entity,
         returnType, comments }

def Endpoint.toJson (m : Endpoint) : Json :=
  .object ([("name", .text m.name), ("http_method", .text m.httpMethod), ("path", .text m.path),
      ("resource", .text m.resource)] ++
    optionalField "group_annotation" m.groupMark .text ++
    listField "path_params" m.pathParams EndpointParam.toJson ++
    listField "query_params" m.queryParams QueryParam.toJson ++
    optionalField "entity" m.entity EndpointParam.toJson ++
    optionalField "return_type" m.returnType SourceType.toJson ++
    listField "comments" m.comments .text)

/-- Reads an application. -/
def Application.ofJson? (value : Json) : Option Application := do
  let record ← Record.ofJson? .json ["name", "path", "methods"] value
  let name ← record.optional? "name" readText?
  let path ← record.optional? "path" readText?
  let methods ← record.required? "methods" (readList? Endpoint.ofJson?)
  pure { name, path, methods }

def Application.toJson (a : Application) : Json :=
  .object (optionalField "name" a.name .text ++ optionalField "path" a.path .text ++
    [("methods", .array (a.methods.map Endpoint.toJson))])

/-- Reads a graph. -/
def SourceGraph.ofJson? (value : Json) : Option SourceGraph := do
  let record ← Record.ofJson? .json ["classes", "enums", "rest"] value
  let classes ← record.default? "classes" [] (readList? (SourceClass.ofJson? false))
  let enums ← record.default? "enums" [] (readList? SourceEnum.ofJson?)
  let rest ← record.optional? "rest" Application.ofJson?
  pure { classes, enums, rest }

def SourceGraph.toJson (g : SourceGraph) : Json :=
  .object ([("classes", .array (g.classes.map SourceClass.toJson)),
      ("enums", .array (g.enums.map SourceEnum.toJson))] ++
    optionalField "rest" g.rest Application.toJson)

end Typings
