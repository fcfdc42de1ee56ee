import WarmPool.Http.Exchange
import WarmPool.Http.Phrase
import WarmPool.Http.Shape.Resource
import WarmPool.Reconcile.Plan

/-!
# The API client

How calls become requests, and responses replies. A response with a code from 400 to 599 is a
failure that its body describes; any other has to hold what was asked for. `ApiClient.perform` makes
one call of a plan: finalizers are read and then replaced under the resource version that was read,
and a replaced owner list carries the version that was seen, so that the server refuses it if it is
stale.
-/

namespace WarmPool.Http.ApiClient

open Reconcile

/-! ### Responses -/

/-- The failure in a body that has the shape of one. -/
def decodeStatus? (v : Json) : Option ApiStatus := do
  let fields ← v.objectFields?
  let code ← Json.required? (Json.toInt? 0 (2 ^ (16 : Nat) - 1)) "code" fields
  pure
    { status := ← Json.required? Json.toString? "status" fields
      message := ← Json.defaulted? "" Json.toString? "message" fields
      reason := ← Json.defaulted? "" Json.toString? "reason" fields
      code := code.toNat }

/-- A failure. -/
def failureBody : Body ApiStatus :=
  ⟨.record 4 [("status", .text), ("message", .text), ("reason", .text), ("code", .nat16)],
    decodeStatus?⟩

/-- The failure that a code alone tells, with the body that was not understood. -/
def unreadStatus (r : Response) : ApiStatus where
  status := natText r.status ++ " " ++ phrase r.status
  message := Text.quoted r.text
  reason := "Failed to parse error data"
  code := r.status

/-- Whether a code is that of a failure. -/
def isFailure (code : Nat) : Bool := 400 ≤ code && code < 600

/-- What a response brings. -/
def interpret (body : Body α) : Option Response → Except ApiFailure α
  | none => .error .noAnswer
  | some r =>
    if isFailure r.status then
      .error (.status ((failureBody.read? r.text).getD (unreadStatus r)))
    else
      match body.read? r.text with
      | some a => .ok a
      | none => .error .noAnswer

/-! ### Requests -/

/-- Sends a request and reads the answer; a request that cannot be made fails without being sent. -/
def fetch (body : Body α) : Option Request → Exchange (Except ApiFailure α)
  | none => .done (.error .noAnswer)
  | some request => .send request fun response => .done (interpret body response)

/-- The path of a collection in a namespace. -/
def collection (namespaceName : String) (kind : Kind) : String :=
  "/apis/" ++ apiVersion ++ "/namespaces/" ++ namespaceName ++ "/" ++ kind.plural

/-- The path of an object in a collection; there is none without a name. -/
def member? (collection name : String) : Option String :=
  if name.isEmpty then none else some (collection ++ "/" ++ name)

/-- Reads an object. -/
def get (body : Body α) (collection name : String) : Exchange (Except ApiFailure α) :=
  fetch body <| (member? collection name).bind fun path => Request.ofTarget? .get path [] none

/-- Reads an object that may not exist, which the reason of the failure tells. -/
def getOption (body : Body α) (collection name : String) :
    Exchange (Except ApiFailure (Option α)) := do
  match ← get body collection name with
  | .ok a => pure (.ok (some a))
  | .error (.status s) =>
    if s.reason = "NotFound" then pure (.ok none) else pure (.error (.status s))
  | .error .noAnswer => pure (.error .noAnswer)

/-- Makes an object. -/
def create (answer : Body α) (collection : String) (object : Json) :
    Exchange (Except ApiFailure α) :=
  fetch answer (Request.ofTarget? .post collection [] (some (.object, object)))

/-- The greatest number of bytes in the name of the one who writes. -/
def maxManagerLength : Nat := 128

/-- Lays a patch over an object, or over a part of it that the end of the path names. -/
def patch (answer : Body α) (collection name path : String) (manager : Option String)
    (change : Json) : Exchange (Except ApiFailure α) :=
  let pairs := (manager.map fun m => ("fieldManager", m)).toList
  if (manager.map (·.utf8ByteSize)).getD 0 ≤ maxManagerLength then
    fetch answer <| (member? collection name).bind fun member =>
      Request.ofTarget? .patch (member ++ path) pairs (some (.mergePatch, change))
  else .done (.error .noAnswer)

/-- Reads the objects of a collection with a label. -/
def list (item : Body α) (collection selector : String) :
    Exchange (Except ApiFailure (List α)) :=
  fetch (.list item)
    (Request.ofTarget? .get collection [("labelSelector", selector)] none)

/-! ### Writes -/

/-- The name under which the reconciler writes. -/
def fieldManager : String := "devinfra-requirement-controller"

/-- Writes the status of an object of a kind as a merge patch. -/
def patchStatusOf (answer : Body α) (kind : Kind) (namespaceName name manager : String)
    (status : Json) : Exchange (Except ApiFailure α) :=
  patch answer (collection namespaceName kind) name "/status" (some manager)
    (.object [("status", status)])

/-- A patch of one metadata field that holds only for the version seen. -/
def guarded (version : Option String) (key : String) (value : Json) : Json :=
  .object [("metadata", .object [("resourceVersion", Json.ofString? version), (key, value)])]

/-- The error of a failed request on a requirement. -/
def requirementError (name : String) (f : ApiFailure) : Error :=
  .ofNamed Kind.requirement.name name f

/-- The wording of a failure, as far as the server has told one. -/
def failureText (f : ApiFailure) : String := f.text?.getD ""

/-- A write of an operation that met a change by someone else. -/
def operationConflict (name : String) (f : ApiFailure) : Error :=
  .conflict Kind.operation.name name (failureText f)

/-- Replaces the finalizers of a requirement that still has the version read. -/
def patchFinalizers (namespaceName name : String) (r : Requirement) (finalizers : List String) :
    Exchange (Except ApiFailure Requirement) :=
  patch .requirement (collection namespaceName .requirement) name "" (some fieldManager)
    (guarded r.metadata.resourceVersion "finalizers" (Json.ofStrings finalizers))

/-- Writes the status of a requirement. -/
def patchStatus (namespaceName name : String) (status : RequirementStatus) :
    Exchange (Except Error Unit) := do
  match ← patchStatusOf .requirement .requirement namespaceName name fieldManager
      status.encode with
  | .ok _ => pure (.ok ())
  | .error f => pure (.error (requirementError name f))

/-- Adds a finalizer to a requirement that lacks it. -/
def addFinalizer (namespaceName name finalizer : String) : Exchange (Except Error Unit) := do
  match ← get .requirement (collection namespaceName .requirement) name with
  | .error f => pure (.error (requirementError name f))
  | .ok r =>
    match r.metadata.withFinalizer? finalizer with
    | none => pure (.ok ())
    | some finalizers =>
      match ← patchFinalizers namespaceName name r finalizers with
      | .ok _ => pure (.ok ())
      | .error f => pure (.error (requirementError name f))

/-- Takes a finalizer from a requirement that has it; one that is gone has none. -/
def removeFinalizer (namespaceName name finalizer : String) : Exchange (Except Error Unit) := do
  match ← getOption .requirement (collection namespaceName .requirement) name with
  | .error f => pure (.error (.api f))
  | .ok none => pure (.ok ())
  | .ok (some r) =>
    match r.metadata.withoutFinalizer? finalizer with
    | none => pure (.ok ())
    | some finalizers =>
      match ← patchFinalizers namespaceName name r finalizers with
      | .ok _ => pure (.ok ())
      | .error f => if f.isNotFound then pure (.ok ()) else pure (.error (.api f))

/-- Makes a cache; tells false if there is one of its name. -/
def createCache (namespaceName : String) (cache : Cache) : Exchange (Except Error Bool) := do
  match ← create .cache (collection namespaceName .cache) cache.encode with
  | .ok _ => pure (.ok true)
  | .error f => if f.isConflict then pure (.ok false) else pure (.error (.api f))

/-- Makes an operation. -/
def createOperation (namespaceName : String) (op : Operation) :
    Exchange (Except Error Operation) := do
  match ← create .operation (collection namespaceName .operation) op.encode with
  | .ok op => pure (.ok op)
  | .error f =>
    if f.isConflict then pure (.error (operationConflict (op.metadata.name.getD "") f))
    else pure (.error (.api f))

/-- Replaces the owners of an operation that still has the version seen. -/
def patchOwners (namespaceName name version : String) (owners : List OwnerReference) :
    Exchange (Except Error Unit) := do
  let body :=
    guarded (some version) "ownerReferences" (.array (owners.map OwnerReference.encode))
  match ← patch .operation (collection namespaceName .operation) name ""
      (some fieldManager) body with
  | .ok _ => pure (.ok ())
  | .error f =>
    if f.isConflict || f.isNotFound then pure (.error (operationConflict name f))
    else pure (.error (.api f))

/-- A result whose failure is an error of the reconciler. -/
def asError (result : Except ApiFailure α) : Except Error α := result.mapError Error.api

/-- The selector for the objects labelled with a key. -/
def keySelector (key : String) : String := keyLabel ++ "=" ++ key

/-- Reads a cache. -/
def getCache (namespaceName name : String) : Exchange (Except Error (Option Cache)) := do
  pure (asError (← getOption .cache (collection namespaceName .cache) name))

/-- Reads an operation. -/
def getOperation (namespaceName name : String) : Exchange (Except Error (Option Operation)) := do
  pure (asError (← getOption .operation (collection namespaceName .operation) name))

/-- Reads the operations that a selector chooses. -/
def listOperations (namespaceName selector : String) :
    Exchange (Except Error (List Operation)) := do
  pure (asError (← list .operation (collection namespaceName .operation) selector))

/-- Makes a call of a plan. -/
def perform (namespaceName : String) : (c : Call) → Exchange (Except Error c.Reply)
  | .patchStatus name status => patchStatus namespaceName name status
  | .addFinalizer name finalizer => addFinalizer namespaceName name finalizer
  | .removeFinalizer name finalizer => removeFinalizer namespaceName name finalizer
  | .getCache name => getCache namespaceName name
  | .createCache cache => createCache namespaceName cache
  | .getOperation name => getOperation namespaceName name
  | .listOperations key => listOperations namespaceName (keySelector key)
  | .createOperation op => createOperation namespaceName op
  | .patchOwners name version owners => patchOwners namespaceName name version owners

end WarmPool.Http.ApiClient
