import WarmPool.Cache
import WarmPool.Http.Shape
import WarmPool.Operation
import WarmPool.Requirement

/-!
# Bodies that hold resources

What the three kinds of resources look like in a body, alone and in a list. Metadata is lenient, as
are the kinds of the API itself; what is particular to a kind of resource is a plain record.
-/

namespace WarmPool.Http

namespace Shape

/-- A map of strings. -/
def labels : Shape := map text

/-! ### Metadata -/

/-- The reference to an owner. -/
def owner : Shape :=
  lenient <| optionals
    [("apiVersion", text), ("blockOwnerDeletion", flag), ("controller", flag), ("kind", text),
      ("name", text), ("uid", text)]

/-- Which fields a client manages. -/
def managedFields : Shape :=
  lenient <| optionals
    [("apiVersion", text), ("fieldsType", text), ("fieldsV1", anything), ("manager", text),
      ("operation", text), ("subresource", text), ("time", instant)]

/-- The metadata of an object. -/
def metadata : Shape :=
  lenient <| optionals
    [("annotations", labels), ("creationTimestamp", instant),
      ("deletionGracePeriodSeconds", int64), ("deletionTimestamp", instant),
      ("finalizers", texts), ("generateName", text), ("generation", int64), ("labels", labels),
      ("managedFields", list managedFields), ("name", text), ("namespace", text),
      ("ownerReferences", list owner), ("resourceVersion", text), ("selfLink", text),
      ("uid", text)]

/-- The metadata of a list. -/
def listMetadata : Shape :=
  lenient <| optionals
    [("continue", text), ("remainingItemCount", int64), ("resourceVersion", text),
      ("selfLink", text)]

/-- An object of an API kind: it may lack the two fields that say so. -/
def kindOf (apiVersion kind : String) (fields : List (String × Shape)) : Shape :=
  lenient <|
    [("apiVersion", constant apiVersion), ("kind", constant kind),
      ("metadata", optional metadata)] ++ optionals fields

/-! ### Specifications and statuses -/

/-- A job. -/
def job : Shape :=
  record 1
    [("image", text), ("command", texts), ("args", texts), ("env", labels),
      ("backoffLimit", optional int32), ("activeDeadlineSeconds", optional int64)]

/-- An application. -/
def application : Shape :=
  record 2 [("name", text), ("provision", job), ("teardown", optional job)]

/-- A template. -/
def template : Shape := record 0 [("applications", list application)]

/-- A condition. -/
def condition : Shape :=
  record 5
    [("type", text), ("status", choice (ConditionStatus.names.map Prod.fst)), ("reason", text),
      ("message", text), ("lastTransitionTime", instant)]

/-- The size of the cache that a requirement would make. -/
def sizing : Shape :=
  record 0 [("keepAliveCount", optional nat32), ("keepAliveDuration", optional text)]

/-- The specification of a requirement. -/
def requirementSpec : Shape :=
  record 1 [("template", template), ("enableCache", flag), ("cacheSpec", optional sizing)]

/-- The status of a requirement. -/
def requirementStatus : Shape :=
  record 0
    [("phase", choice (RequirementPhase.names.map Prod.fst)), ("cacheKey", optional text),
      ("operationName", optional text), ("conditions", list condition),
      ("observedGeneration", optional int64)]

/-- The specification of a cache. -/
def cacheSpec : Shape :=
  record 3 [("template", template), ("keepAliveCount", nat32), ("keepAliveDuration", text)]

/-- The status of a cache. -/
def cacheStatus : Shape :=
  record 0 [("cacheKey", optional text), ("keepAliveCount", nat32), ("operations", texts)]

/-- The status of an operation. -/
def operationStatus : Shape :=
  record 0
    [("phase", choice (OperationPhase.names.map Prod.fst)), ("ownerTransferable", flag),
      ("readyTime", optional instant)]

/-- A whole object with this specification and status. -/
def resource (spec status : Shape) : Shape :=
  record 3 [("metadata", metadata), ("spec", spec), ("status", optional status)]

end Shape

namespace Body

/-- A requirement. -/
def requirement : Body Requirement :=
  ⟨.resource .requirementSpec .requirementStatus, Requirement.decode?⟩

/-- A cache. -/
def cache : Body Cache := ⟨.resource .cacheSpec .cacheStatus, Cache.decode?⟩

/-- An operation. -/
def operation : Body Operation := ⟨.resource .template .operationStatus, Operation.decode?⟩

/-- The items of a list; null stands for none. -/
def decodeItems? (decode : Json → Option α) (v : Json) : Option (List α) :=
  match v.get? "items" with
  | none => none
  | some .null => some []
  | some items => items.toList? decode

/-- A list of objects. -/
def list (item : Body α) : Body (List α) :=
  ⟨.envelope [("metadata", .listMetadata), ("items", .optional (.list item.shape))],
    decodeItems? item.decode⟩

end Body

end WarmPool.Http
