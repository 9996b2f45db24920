import Typings.Model.Dates
import Typings.Model.Enums
import Typings.Model.Revival
import Typings.Model.TaggedUnions
import Typings.Service.Endpoints

/-!
# Services

The declarations for the endpoints of an application: an interface and a client for each group, what
clients send requests with, and the type of responses.

## Main definitions

* `Service.surface`, `Service.client`: the declarations of a group.
* `Service.httpClient`: what clients send requests with.
* `Model.representServices`: the choices for dates, enums and unions in service declarations.
* `Model.withCopyFunctions`: clients that revive the content of responses.
* `Model.withServices`: the model with the declarations for its application.
-/

namespace Typings

namespace Service

variable (service : Service)

/-- What responses with content of type `R` are; a promise of the content unless it is set. -/
def responseDefinition : Work TypeExpr := do
  match service.settings.restResponseType with
  | some text => pure (.verbatim text)
  | none =>
    let promise ← Work.syntheticSymbol "Promise"
    pure (.reference promise [.var "R"])

/-- The alias of the type of responses, unless it is declared. -/
def responseAlias (model : Model) : Work (List AliasDeclaration) := do
  if (model.findAlias? service.response).isSome then pure []
  else
    let definition ← service.responseDefinition
    pure [{ symbol := service.response, typeParameters := ["R"], definition }]

/-- The interface of a group. -/
def surface (group : EndpointGroup) : ServiceWork DataDeclaration := do
  let symbol ← Work.symbol (group.key.origin "")
  let methods ← service.groupMethods false group
  pure { symbol, category := .service, typeParameters := service.typeParameters, methods }

def requestFields : List (String × TypeExpr) :=
  [("method", .string), ("url", .string), ("queryParams", .optional .any), ("data", .optional .any),
    ("copyFn", .optional (.function [("data", .var "R")] (.var "R")))] ++
    service.optionsType?.toList.map fun type => ("options", type.orAbsent)

/-- What clients send requests with. -/
def httpClient : Work DataDeclaration := do
  let symbol ← Work.syntheticSymbol "HttpClient"
  pure
    { symbol
      category := .servicePrerequisite
      typeParameters := service.typeParameters
      methods :=
        [{ name := "request"
           typeParameters := ["R"]
           parameters := [{ name := "requestConfig", type := .shape service.requestFields }]
           result := service.responseOf (.var "R") }] }

/-- The symbol of the client of a group, and the surface that it implements. -/
def clientSymbol (group : EndpointGroup) : Work (Symbol × List TypeExpr) := do
  if service.settings.restCodegen.surface then
    -- the client is named after the surface that it implements
    let surface ← Work.symbol (group.key.origin "")
    let symbol ← Work.suffixedSymbol surface "Client"
    pure (symbol, [service.refer surface])
  else
    let symbol ← Work.symbol (group.key.origin "Client")
    pure (symbol, [])

def client (httpClient : Symbol) (group : EndpointGroup) : ServiceWork DataDeclaration := do
  let (symbol, interfaces) ← service.clientSymbol group
  let methods ← service.groupMethods true group
  pure
    { symbol
      category := .service
      isClass := true
      typeParameters := service.typeParameters
      interfaces
      ctor := some
        { parameters :=
            [{ name := "httpClient"
               type := service.refer httpClient
               accessibility := some .protectedMember }] }
      methods }

/-- The surfaces of all groups, if they are wanted. -/
def surfaces (groups : List EndpointGroup) : ServiceWork (List DataDeclaration) :=
  if service.settings.restCodegen.surface then groups.mapM service.surface else pure []

/-- The clients of all groups and what they send requests with, if they are wanted. -/
def clients (groups : List EndpointGroup) : ServiceWork (List DataDeclaration) := do
  if service.settings.restCodegen.client then
    let httpClient ← service.httpClient
    let clients ← groups.mapM (service.client httpClient.symbol)
    pure (httpClient :: clients)
  else pure []

def declarations (groups : List EndpointGroup) : ServiceWork (List DataDeclaration) := do
  let surfaces ← service.surfaces groups
  let clients ← service.clients groups
  pure (surfaces ++ clients)

/-- The model with the declarations of all groups, and the symbols of the query beans. -/
def extend (model : Model) : Work (Model × List Symbol) := do
  let aliases ← service.responseAlias model
  -- groups are settled, with warnings, before any endpoint is compiled
  service.application.warnAboutGroups service.settings.restGrouping
  let groups := service.application.groups service.settings.restGrouping
  Work.report .debug .services
    ("compiling " ++ toString service.application.methods.length ++ " REST method(s) in " ++
      toString groups.length ++ " group(s)")
  let (declared, beans) ← (service.declarations groups).run []
  let extended :=
    { model with
      data := model.data ++ declared ++ beans
      aliases := model.aliases ++ aliases }
  pure
    (if service.settings.restCodegen.client then extended.withHelper .uriEncoding else extended,
      beans.map (·.symbol))

end Service

namespace Model

/-- Applies the choices for dates, enums and unions to the declarations of services. They are made
after these choices were applied to the rest of the model. -/
def representServices (settings : Settings) (beans : List Symbol) (model : Model) : Work Model := do
  -- query beans are data, so they are known by their symbols only
  let isNew := fun (d : DataDeclaration) => d.category != .data || beans.contains d.symbol
  let model ← model.representDates settings.dateMapping isNew
  let model := model.inlineEnums isNew
  pure (if settings.taggedUnions then model.useUnions isNew else model)

/-- The entries of a request with a copy function, which stands before the options. -/
def insertCopyFunction (copy : Expression) (entries : List (String × Option Expression)) :
    List (String × Option Expression) :=
  entries.takeWhile (·.1 != "options") ++ ("copyFn", some copy) ::
    entries.dropWhile (·.1 != "options")

/-- The copy function for the content of a response; nothing is copied where there is no content. -/
def contentCopy (model : Model) (content : TypeExpr) : Expression :=
  match content with
  | .primitive .void => .undefined
  | content => model.copyFunction content

/-- A client method that passes a copy function with its request. -/
def addCopyFunction (model : Model) (response : Symbol) (method : Method) : Method :=
  match method.result, method.body with
  | .reference symbol [content],
    some [.returns (some (.call callee types (.object entries :: args)))] =>
    if symbol = response then
      let entries := insertCopyFunction (model.contentCopy content) entries
      { method with
        body := some [.returns (some (.call callee types (.object entries :: args)))] }
    else method
  | _, _ => method

/-- The model whose clients revive the content of responses. -/
def withCopyFunctions (model : Model) (response : Symbol) : Model :=
  { model with
    data := model.data.map fun d =>
      if d.isClass && d.category == .service then
        { d with methods := d.methods.map (model.addCopyFunction response) }
      else d }

/-- The model with the declarations for an application. -/
def withServices (application : Application) (settings : Settings) (mapper : Mapper)
    (model : Model) : Work Model := do
  if settings.restCodegen = .neither then pure model
  else
    let response ← Work.syntheticSymbol "RestResponse"
    let service : Service := { application, settings, mapper, response }
    let (extended, beans) ← service.extend model
    let represented ← extended.representServices settings beans
    pure
      -- copy functions go with the requests of clients, and they copy the types as represented
      (if settings.deserializationFunctions && settings.restCodegen.client then
        represented.withCopyFunctions response
      else represented)

end Model

end Typings
