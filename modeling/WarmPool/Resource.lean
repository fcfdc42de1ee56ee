import WarmPool.Error
import WarmPool.Metadata

/-!
# Resources

What the three kinds of resources share: the API group, labels and limits, and the JSON form of a
whole object, which is its API version and kind, its metadata, its specification and its status.
-/

namespace WarmPool

/-- The API group of every resource. -/
def apiGroup : String := "devinfra.goms.io"

/-- The name of the version within the group. -/
def apiVersionName : String := "v1alpha1"

/-- The API version of every resource. -/
def apiVersion : String := "devinfra.goms.io/v1alpha1"

/-- The label that carries the key of a template. -/
def keyLabel : String := "devinfra.goms.io/cache-key"

/-- The label that names the requirement an operation was made for. -/
def requirementLabel : String := "devinfra.goms.io/requirement"

/-- The finalizer of a requirement. -/
def requirementFinalizer : String := "finalizer.requirement.devinfra.goms.io"

/-- A kind of resource. -/
inductive Kind where
  | requirement
  | cache
  | operation
deriving DecidableEq, Repr

namespace Kind

/-- The name of a kind. -/
def name : Kind → String
  | requirement => "Requirement"
  | cache => "Cache"
  | operation => "Operation"

/-- The name of the collection of a kind. -/
def plural : Kind → String
  | requirement => "requirements"
  | cache => "caches"
  | operation => "operations"

/-- The kind of a name. -/
def ofName? (s : String) : Option Kind :=
  [requirement, cache, operation].find? fun k => k.name = s

end Kind

namespace Resource

/--
The metadata, specification and status of a whole object. An array lists all three, a missing status
as null.
-/
def decode? (spec : Json → Option σ) (status : Json → Option τ) (v : Json) :
    Option (Metadata × σ × Option τ) := do
  let fields ← match v with
    | .array [m, s, t] => some [("metadata", m), ("spec", s), ("status", t)]
    | .object fields => some fields
    | _ => none
  let metadata ← Json.required? Metadata.decode? "metadata" fields
  let spec ← Json.required? spec "spec" fields
  let status ← Json.optional? status "status" fields
  pure (metadata, spec, status)

/-- A whole object of a kind. -/
def encode (kind : Kind) (metadata : Metadata) (spec : Json) (status : Option Json) : Json :=
  .object <|
    [Json.stringField "apiVersion" apiVersion, Json.stringField "kind" kind.name,
      ("metadata", metadata.encode), ("spec", spec)] ++
    Json.optionalField "status" id status

end Resource

/-- The reference to an owner of this kind with this metadata and UID. -/
def ownerReference (kind : Kind) (owner : Metadata) (uid : String) (controller : Bool) :
    OwnerReference where
  apiVersion := apiVersion
  kind := kind.name
  name := owner.anyName
  uid := uid
  controller := some controller
  blockOwnerDeletion := some true

/-- The reference to an owner of this kind with this metadata, which has to have a UID. -/
def ownerReferenceOf (kind : Kind) (owner : Metadata) (controller : Bool) :
    Except Error OwnerReference :=
  match owner.uid with
  | some uid => .ok (ownerReference kind owner uid controller)
  | none => .error .ownerWithoutUid

end WarmPool
