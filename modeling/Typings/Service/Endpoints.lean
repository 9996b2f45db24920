import Typings.Mapping.Basic
import Typings.Model.Basic
import Typings.Service.Groups
import Typings.Service.PathTemplate

/-!
# Methods for endpoints

Every endpoint becomes a method. Its parameters are those of the path, the body, the query and the
options, and it returns a response.

## Main definitions

* `Service`: an application with what its endpoints are compiled with.
* `ServiceWork`: work that declares the parameters of query beans on the way.
* `Service.queryType`: the type of the query parameters of an endpoint.
* `Service.method`: the method of an endpoint.
* `Service.groupMethods`: the methods of a group.
-/

namespace Typings

/-- An application with what its endpoints are compiled with. -/
structure Service where
  application : Application
  settings : Settings
  mapper : Mapper
  /-- The alias of the type of responses. -/
  response : Symbol

/-- Work that declares the parameters of query beans on the way. -/
abbrev ServiceWork := StateT (List DataDeclaration) Work

namespace Service

variable (service : Service)

/-! ## Options -/

def optionsType? : Option TypeExpr :=
  service.settings.restOptionsType.map fun options =>
    if service.settings.restOptionsTypeIsGeneric then .var options else .verbatim options

/-- The type parameters of services: the type of options, if it is one. -/
def typeParameters : List String :=
  if service.settings.restOptionsTypeIsGeneric then service.settings.restOptionsType.toList else []

/-- A service declaration applied to the type parameters of services. -/
def refer (symbol : Symbol) : TypeExpr :=
  .reference symbol (service.typeParameters.map .var)

/-! ## Types -/

/-- The type of something in an endpoint; `any` with a warning if it is not recognised. -/
def typeOf (endpoint : Endpoint) (source : SourceType) : Work TypeExpr := do
  match ← service.mapper.map source with
  | .ok type => pure type
  | .error unresolved =>
    Work.warn (.ofUnresolvedType unresolved.source endpoint.resource endpoint.name)
    pure .any

def beanProperty (endpoint : Endpoint) (p : SourceProperty) : Work Property := do
  let type ← service.typeOf endpoint p.type
  pure
    { name := p.name
      type := if p.optional then type.orAbsent else type
      comments := p.comments }

def beanDeclaration (endpoint : Endpoint) (bean : SourceClass) (symbol : Symbol) :
    Work DataDeclaration := do
  let properties ← bean.properties.mapM (service.beanProperty endpoint)
  Work.report .debug .services ("declaring query parameters of '" ++ bean.name ++ "'")
  pure { symbol, properties, comments := bean.comments }

/-- The symbol of a query bean, which is declared once. -/
def queryBean (endpoint : Endpoint) (bean : SourceClass) : ServiceWork Symbol := do
  let symbol ← Work.entitySymbol bean.name "QueryParams"
  if (← get).any (·.symbol == symbol) then pure symbol
  else
    let declared ← service.beanDeclaration endpoint bean symbol
    modify (· ++ [declared])
    pure symbol

/-- A shape, unless it has no fields. -/
def shapeOf (fields : List (String × TypeExpr)) : List TypeExpr :=
  if fields.isEmpty then [] else [.shape fields]

/-- The types of query parameters. A run of single parameters, which starts with the given ones, is
one shape; a bean is a reference to its declaration. -/
def queryTypes (endpoint : Endpoint) (singles : List (String × TypeExpr)) :
    List QueryParam → ServiceWork (List TypeExpr)
  | [] => pure (shapeOf singles)
  | .single param :: rest => do
    let type ← service.typeOf endpoint param.type
    queryTypes endpoint (singles ++ [(param.name, type.orAbsent)]) rest
  | .bean bean :: rest => do
    let symbol ← service.queryBean endpoint bean
    let types ← queryTypes endpoint [] rest
    pure (shapeOf singles ++ .bare symbol :: types)

/-- One type for all of the given ones. -/
def intersect : List TypeExpr → TypeExpr
  | [type] => type
  | types => .intersection types

def queryType (endpoint : Endpoint) : ServiceWork TypeExpr :=
  intersect <$> service.queryTypes endpoint [] endpoint.queryParams

def pathParameter (endpoint : Endpoint) (param : EndpointParam) : Work Parameter := do
  let type ← service.typeOf endpoint param.type
  pure { name := Identifier.repair param.name, type }

def bodyParameter (endpoint : Endpoint) (param : EndpointParam) : Work Parameter := do
  let type ← service.typeOf endpoint param.type
  pure { name := param.name, type }

/-- The parameter for the query, if there is one. -/
def queryParameters (endpoint : Endpoint) : ServiceWork (List Parameter) := do
  if endpoint.queryParams.isEmpty then pure []
  else
    let type ← service.queryType endpoint
    pure [{ name := "queryParams", type := type.orAbsent }]

/-- The parameters of an endpoint: path, body, query, options. -/
def parameters (endpoint : Endpoint) : ServiceWork (List Parameter) := do
  let path ← endpoint.pathParams.mapM (service.pathParameter endpoint ·)
  let entity ← endpoint.entity.toList.mapM (service.bodyParameter endpoint ·)
  let query ← service.queryParameters endpoint
  let options := service.optionsType?.toList.map fun type =>
    ({ name := "options", type := type.orAbsent } : Parameter)
  pure (path ++ entity ++ query ++ options)

def responseOf (content : TypeExpr) : TypeExpr :=
  .reference service.response [content]

def result (endpoint : Endpoint) : Work TypeExpr := do
  match endpoint.returnType with
  | some source => service.responseOf <$> service.typeOf endpoint source
  | none => pure (service.responseOf (.primitive .void))

/-! ## Methods -/

/-- The path of an endpoint with the path of the application before it. -/
def pathOf (endpoint : Endpoint) : String :=
  joinPaths service.application.path endpoint.path

/-- The name of a method. Where a group has several endpoints of one name, verb and path follow. -/
def methodName (endpoint : Endpoint) (shared : Bool) : String :=
  if shared then
    endpoint.name ++ "$" ++ endpoint.httpMethod ++ "$" ++
      (PathTemplate.parse (service.pathOf endpoint)).nameSuffix
  else endpoint.name

def methodComments (endpoint : Endpoint) : List String :=
  endpoint.comments ++
    ["HTTP " ++ endpoint.httpMethod ++ " /" ++ service.pathOf endpoint,
      "Source method: " ++ endpoint.qualifiedName]

/-- A part of the address that a client requests. -/
def addressPart : PathPart → TemplatePart
  | .literal text => .literal text
  | .parameter name _ => .substitution (.identifier (Identifier.repair name))

/-- The address that a client requests. -/
def address (endpoint : Endpoint) : Expression :=
  .template (.identifier "uriEncoding")
    ((PathTemplate.parse (service.pathOf endpoint)).parts.map addressPart)

/-- The request that a client sends. -/
def requestEntries (endpoint : Endpoint) : List (String × Option Expression) :=
  [("method", some (.text endpoint.httpMethod)), ("url", some (service.address endpoint))] ++
    (if endpoint.queryParams.isEmpty then []
      else [("queryParams", some (.identifier "queryParams"))]) ++
    (endpoint.entity.toList.map fun entity => ("data", some (.identifier entity.name))) ++
    (if service.optionsType?.isSome then [("options", some (.identifier "options"))] else [])

/-- The code of a client method: it passes the request on. -/
def clientBody (endpoint : Endpoint) : List Statement :=
  [.returns (some (.apply (.member (.member .self "httpClient") "request")
    [.object (service.requestEntries endpoint)]))]

/-- The method of an endpoint, with code in a client. -/
def method (client shared : Bool) (endpoint : Endpoint) : ServiceWork Method := do
  let parameters ← service.parameters endpoint
  let result ← service.result endpoint
  pure
    { name := service.methodName endpoint shared
      parameters
      result
      body := if client then some (service.clientBody endpoint) else none
      comments := service.methodComments endpoint }

def groupMethods (client : Bool) (group : EndpointGroup) : ServiceWork (List Method) :=
  group.endpoints.mapM fun endpoint =>
    -- a name that two endpoints of the group have is told apart by verb and path
    let shared := decide (1 < group.endpoints.countP (·.name == endpoint.name))
    service.method client shared endpoint

end Service

end Typings
