import Typings.EntityName
import Typings.Identifier
import Typings.Session
import Typings.Settings.Basic
import Typings.Source.Basic

/-!
# Groups of endpoints

Each group of endpoints becomes one surface and one client.

## Main definitions

* `GroupKey`: what a group is named after.
* `Grouping`: the groups that endpoints are put into one after the other.
* `Application.groupKey`: the group of an endpoint.
* `Application.groups`: the groups of an application.
-/

namespace Typings

/-- What a group of endpoints is named after. -/
inductive GroupKey where
  /-- The entity that the endpoints belong to. -/
  | resource (entity : String)
  /-- A name that is used as it is. -/
  | named (name : String)
  deriving Repr, DecidableEq, Inhabited

def GroupKey.origin (key : GroupKey) (suffix : String) : Origin :=
  match key with
  | resource entity => .entity entity suffix
  | named name => .synthetic (name ++ suffix)

/-- Endpoints that belong together. -/
structure EndpointGroup where
  key : GroupKey
  endpoints : List Endpoint
  deriving Repr, Inhabited

/-- The groups that were made so far, and the position of the group of each key. -/
structure Grouping where
  groups : List EndpointGroup := []
  positions : List (GroupKey × Nat) := []

/-- Adds an endpoint to the group of a key. A new key gets a group at the end. -/
def Grouping.add (grouping : Grouping) (key : GroupKey) (endpoint : Endpoint) : Grouping :=
  match grouping.positions.lookup key with
  | some position =>
    { grouping with
      groups := grouping.groups.modify position fun group =>
        { group with endpoints := group.endpoints ++ [endpoint] } }
  | none =>
    { groups := grouping.groups ++ [{ key, endpoints := [endpoint] }]
      positions := (key, grouping.groups.length) :: grouping.positions }

def Endpoint.qualifiedName (endpoint : Endpoint) : String :=
  endpoint.resource ++ "." ++ endpoint.name

namespace Application

/-- The name of the group of endpoints that are not grouped otherwise. -/
def defaultGroup (application : Application) : String :=
  (application.name.map EntityName.simple).getD "RestApplication"

/-- The warning about an annotation that cannot name a group. -/
def groupWarning? (application : Application) (grouping : RestGrouping) (endpoint : Endpoint) :
    Option Warning :=
  match grouping, endpoint.groupMark with
  | .perMark, some value =>
    if Identifier.isValid value then none
    else some (.ofInvalidIdentifier value endpoint.qualifiedName application.defaultGroup)
  | _, _ => none

/-- The group of an endpoint. An annotation that is no identifier does not count. -/
def groupKey (application : Application) (grouping : RestGrouping) (endpoint : Endpoint) :
    GroupKey :=
  match grouping with
  | .perResource => .resource endpoint.resource
  | .perMark =>
    -- the same test as in `groupWarning?`, so that a mark is warned about or used
    .named ((endpoint.groupMark.filter Identifier.isValid).getD application.defaultGroup)
  | .singleApplication => .named application.defaultGroup

/-- The groups in the order in which they occur, the endpoints of each in the order of their
paths. -/
def groups (application : Application) (grouping : RestGrouping) : List EndpointGroup :=
  let grouped : Grouping := application.methods.foldl
    (fun grouped endpoint => grouped.add (application.groupKey grouping endpoint) endpoint) {}
  grouped.groups.map fun group =>
    { group with endpoints := group.endpoints.mergeSort fun a b => a.path ≤ b.path }

/-- Warns about the annotations that cannot name groups. -/
def warnAboutGroups (application : Application) (grouping : RestGrouping) : Work Unit :=
  (application.methods.filterMap (application.groupWarning? grouping)).forM Work.warn

end Application

end Typings
