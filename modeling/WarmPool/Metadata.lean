import WarmPool.Json.Decode

/-!
# Object metadata

The metadata that every object carries, with the lists that link objects and guard their deletion.
An owner reference marked as controller names the one owner whose deletion deletes the object;
other references are advisory and go only when someone removes them.
-/

namespace WarmPool

/-- A reference from an object to an owner. -/
structure OwnerReference where
  apiVersion : String
  kind : String
  name : String
  uid : String
  controller : Option Bool
  blockOwnerDeletion : Option Bool
deriving DecidableEq, Repr, Inhabited

namespace OwnerReference

/-- Whether this is the reference to the controlling owner. -/
def isController (r : OwnerReference) : Bool := r.controller = some true

/-- Reads a reference; absent and null strings are empty. -/
def decode? (v : Json) : Option OwnerReference := do
  let fields ← v.objectFields?
  let text (key : String) := (Json.optional? Json.toString? key fields).map (·.getD "")
  pure
    { apiVersion := ← text "apiVersion"
      kind := ← text "kind"
      name := ← text "name"
      uid := ← text "uid"
      controller := ← Json.optional? Json.toBool? "controller" fields
      blockOwnerDeletion := ← Json.optional? Json.toBool? "blockOwnerDeletion" fields }

/-- Writes a reference. -/
def encode (r : OwnerReference) : Json :=
  .object <|
    [Json.stringField "apiVersion" r.apiVersion] ++
    Json.optionalField "blockOwnerDeletion" Json.bool r.blockOwnerDeletion ++
    Json.optionalField "controller" Json.bool r.controller ++
    [Json.stringField "kind" r.kind, Json.stringField "name" r.name, Json.stringField "uid" r.uid]

end OwnerReference

/-- Which fields a client manages. -/
structure ManagedFields where
  apiVersion : Option String
  fieldsType : Option String
  fieldsV1 : Option Json
  manager : Option String
  operation : Option String
  subresource : Option String
  time : Option Timestamp
deriving DecidableEq, Repr, Inhabited

namespace ManagedFields

/-- Reads an entry. -/
def decode? (v : Json) : Option ManagedFields := do
  let fields ← v.objectFields?
  pure
    { apiVersion := ← Json.optional? Json.toString? "apiVersion" fields
      fieldsType := ← Json.optional? Json.toString? "fieldsType" fields
      fieldsV1 := ← Json.optional? some "fieldsV1" fields
      manager := ← Json.optional? Json.toString? "manager" fields
      operation := ← Json.optional? Json.toString? "operation" fields
      subresource := ← Json.optional? Json.toString? "subresource" fields
      time := ← Json.optional? Json.toTimestamp? "time" fields }

/-- Writes an entry. -/
def encode (m : ManagedFields) : Json :=
  .object <|
    Json.optionalField "apiVersion" Json.string m.apiVersion ++
    Json.optionalField "fieldsType" Json.string m.fieldsType ++
    Json.optionalField "fieldsV1" id m.fieldsV1 ++
    Json.optionalField "manager" Json.string m.manager ++
    Json.optionalField "operation" Json.string m.operation ++
    Json.optionalField "subresource" Json.string m.subresource ++
    Json.optionalField "time" (fun t => Json.string t.wholeText) m.time

end ManagedFields

/-- The metadata of an object. -/
structure Metadata where
  annotations : Option StringMap := none
  creationTimestamp : Option Timestamp := none
  deletionGracePeriodSeconds : Option Int64 := none
  deletionTimestamp : Option Timestamp := none
  finalizers : Option (List String) := none
  generateName : Option String := none
  generation : Option Int64 := none
  labels : Option StringMap := none
  managedFields : Option (List ManagedFields) := none
  name : Option String := none
  namespaceName : Option String := none
  ownerReferences : Option (List OwnerReference) := none
  resourceVersion : Option String := none
  selfLink : Option String := none
  uid : Option String := none
deriving DecidableEq, Repr, Inhabited

namespace Metadata

/-- The name, or what it is to be generated from, or nothing. -/
def anyName (m : Metadata) : String := (m.name <|> m.generateName).getD ""

/-! ### JSON -/

/-- Reads metadata; null and absent are the same for every field. -/
def decode? (v : Json) : Option Metadata := do
  let fields ← v.objectFields?
  pure
    { annotations := ← Json.optional? Json.toStringMap? "annotations" fields
      creationTimestamp := ← Json.optional? Json.toTimestamp? "creationTimestamp" fields
      deletionGracePeriodSeconds :=
        ← Json.optional? Json.toInt64? "deletionGracePeriodSeconds" fields
      deletionTimestamp := ← Json.optional? Json.toTimestamp? "deletionTimestamp" fields
      finalizers := ← Json.optional? Json.toStrings? "finalizers" fields
      generateName := ← Json.optional? Json.toString? "generateName" fields
      generation := ← Json.optional? Json.toInt64? "generation" fields
      labels := ← Json.optional? Json.toStringMap? "labels" fields
      managedFields :=
        ← Json.optional? (Json.toList? ManagedFields.decode?) "managedFields" fields
      name := ← Json.optional? Json.toString? "name" fields
      namespaceName := ← Json.optional? Json.toString? "namespace" fields
      ownerReferences :=
        ← Json.optional? (Json.toList? OwnerReference.decode?) "ownerReferences" fields
      resourceVersion := ← Json.optional? Json.toString? "resourceVersion" fields
      selfLink := ← Json.optional? Json.toString? "selfLink" fields
      uid := ← Json.optional? Json.toString? "uid" fields }

/-- Writes metadata; instants lose their fraction of a second. -/
def encode (m : Metadata) : Json :=
  .object <|
    Json.optionalField "annotations" Json.ofStringMap m.annotations ++
    Json.optionalField "creationTimestamp" (fun t => Json.string t.wholeText)
      m.creationTimestamp ++
    Json.optionalField "deletionGracePeriodSeconds" Json.ofInt64 m.deletionGracePeriodSeconds ++
    Json.optionalField "deletionTimestamp" (fun t => Json.string t.wholeText)
      m.deletionTimestamp ++
    Json.optionalField "finalizers" Json.ofStrings m.finalizers ++
    Json.optionalField "generateName" Json.string m.generateName ++
    Json.optionalField "generation" Json.ofInt64 m.generation ++
    Json.optionalField "labels" Json.ofStringMap m.labels ++
    Json.optionalField "managedFields" (fun l => Json.array (l.map ManagedFields.encode))
      m.managedFields ++
    Json.optionalField "name" Json.string m.name ++
    Json.optionalField "namespace" Json.string m.namespaceName ++
    Json.optionalField "ownerReferences" (fun l => Json.array (l.map OwnerReference.encode))
      m.ownerReferences ++
    Json.optionalField "resourceVersion" Json.string m.resourceVersion ++
    Json.optionalField "selfLink" Json.string m.selfLink ++
    Json.optionalField "uid" Json.string m.uid

/-! ### Owners -/

/-- The owner references, none if there is no list. -/
def owners (m : Metadata) : List OwnerReference := m.ownerReferences.getD []

/-- The first reference to a controlling owner. -/
def controllerOwner? (m : Metadata) : Option OwnerReference :=
  m.owners.find? OwnerReference.isController

/-- The references to owners of a kind. -/
def ownersOfKind (m : Metadata) (kind : String) : List OwnerReference :=
  m.owners.filter fun r => r.kind = kind

/-- The first reference to the owner with this UID. -/
def findOwner? (m : Metadata) (uid : String) : Option OwnerReference :=
  m.owners.find? fun r => r.uid = uid

/-- The references without those to this UID. -/
def withoutOwner (m : Metadata) (uid : String) : List OwnerReference :=
  m.owners.filter fun r => r.uid ≠ uid

/-- The references with this one at the end and no other to its UID. -/
def withOwner (m : Metadata) (r : OwnerReference) : List OwnerReference :=
  m.withoutOwner r.uid ++ [r]

/-! ### Finalizers -/

/-- Whether a finalizer is there. -/
def hasFinalizer (m : Metadata) (finalizer : String) : Bool :=
  (m.finalizers.getD []).contains finalizer

/-- The finalizers with this one at the end, unless it is there. -/
def withFinalizer? (m : Metadata) (finalizer : String) : Option (List String) :=
  if m.hasFinalizer finalizer then none else some (m.finalizers.getD [] ++ [finalizer])

/-- The finalizers without this one, if it is there. -/
def withoutFinalizer? (m : Metadata) (finalizer : String) : Option (List String) :=
  if m.hasFinalizer finalizer then some ((m.finalizers.getD []).filter (· ≠ finalizer)) else none

end Metadata

end WarmPool
