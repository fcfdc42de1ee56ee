import WarmPool.Json.MergePatch
import WarmPool.Reconcile.Plan

/-!
# A cluster in memory

The stored objects of each kind, in the order in which they came, each found by the namespace and
the name that it states; one that lacks either is found by nobody. `Cluster.serve` answers the calls
of a plan: a status is merged into the stored object as JSON, owners are replaced only if the
resource version is the stored one, and every write of an operation gives it a version that no
object had before.
-/

namespace WarmPool

/-- Whether metadata states this namespace and this name. -/
def Metadata.isAt (m : Metadata) (namespaceName name : String) : Bool :=
  m.namespaceName = some namespaceName && m.name = some name

/-- Replaces the first element that is meant, or adds one at the end. -/
def upsert (meant : α → Bool) (new : α) : List α → List α
  | [] => [new]
  | a :: rest => if meant a then new :: rest else a :: upsert meant new rest

/-- Changes every element that is meant. -/
def updateWhere (meant : α → Bool) (change : α → α) (l : List α) : List α :=
  l.map fun a => if meant a then change a else a

/-- The requirement with a status laid over its own by merge patch. -/
def Requirement.withStatus (r : Requirement) (status : RequirementStatus) : Requirement :=
  (Requirement.decode? (r.encode.merge (.object [("status", status.encode)]))).getD r

/-- The requirement without a finalizer. -/
def Requirement.dropFinalizer (r : Requirement) (finalizer : String) : Requirement :=
  { r with
    metadata :=
      { r.metadata with finalizers := r.metadata.finalizers.map (·.filter (· ≠ finalizer)) } }

/-- The stored objects, and what names and versions are made from. -/
structure Cluster where
  requirements : List Requirement := []
  caches : List Cache := []
  operations : List Operation := []
  /-- The name of an operation made, from the name asked for and its number: the one asked for. -/
  naming : (asked : String) → (number : Nat) → String := fun asked _ => asked
  /-- How many operations have been made. -/
  made : Nat := 0
  /-- The last resource version handed out. -/
  version : Nat := 1000
deriving Inhabited

namespace Cluster

open Reconcile

/-! ### Objects -/

/-- A stored requirement. -/
def requirement? (c : Cluster) (namespaceName name : String) : Option Requirement :=
  c.requirements.find? fun r => r.metadata.isAt namespaceName name

/-- A stored cache. -/
def cache? (c : Cluster) (namespaceName name : String) : Option Cache :=
  c.caches.find? fun x => x.metadata.isAt namespaceName name

/-- A stored operation. -/
def operation? (c : Cluster) (namespaceName name : String) : Option Operation :=
  c.operations.find? fun op => op.metadata.isAt namespaceName name

/-- Stores a requirement, in the place of the one with its namespace and name. -/
def putRequirement (c : Cluster) (r : Requirement) : Cluster :=
  { c with
    requirements :=
      upsert (fun x => x.metadata.isAt (r.metadata.namespaceName.getD "") r.name) r
        c.requirements }

/-- Stores a cache, in the place of the one with its namespace and name. -/
def putCache (c : Cluster) (x : Cache) : Cluster :=
  { c with
    caches :=
      upsert (fun y => y.metadata.isAt (x.metadata.namespaceName.getD "") x.name) x c.caches }

/-- Stores an operation, in the place of the one with its namespace and name. -/
def putOperation (c : Cluster) (op : Operation) : Cluster :=
  { c with
    operations :=
      upsert (fun x => x.metadata.isAt (op.metadata.namespaceName.getD "") op.name) op
        c.operations }

/-- Changes a stored requirement. -/
def updateRequirement (c : Cluster) (namespaceName name : String)
    (change : Requirement → Requirement) : Cluster :=
  { c with
    requirements :=
      updateWhere (fun r => r.metadata.isAt namespaceName name) change c.requirements }

/-- Changes a stored cache. -/
def updateCache (c : Cluster) (namespaceName name : String) (change : Cache → Cache) : Cluster :=
  { c with caches := updateWhere (fun x => x.metadata.isAt namespaceName name) change c.caches }

/-- Changes a stored operation. -/
def updateOperation (c : Cluster) (namespaceName name : String)
    (change : Operation → Operation) : Cluster :=
  { c with
    operations :=
      updateWhere (fun op => op.metadata.isAt namespaceName name) change c.operations }

/-- Removes a requirement. -/
def removeRequirement (c : Cluster) (namespaceName name : String) : Cluster :=
  { c with
    requirements := c.requirements.filter fun r => !r.metadata.isAt namespaceName name }

/-- Removes a cache. -/
def removeCache (c : Cluster) (namespaceName name : String) : Cluster :=
  { c with caches := c.caches.filter fun x => !x.metadata.isAt namespaceName name }

/-- Removes an operation. -/
def removeOperation (c : Cluster) (namespaceName name : String) : Cluster :=
  { c with operations := c.operations.filter fun op => !op.metadata.isAt namespaceName name }

/-! ### Versions and names -/

/-- The next resource version, and the cluster that has handed it out. -/
def nextVersion (c : Cluster) : String × Cluster :=
  (natText (c.version + 1), { c with version := c.version + 1 })

/-- The UID of an object made under a name. -/
def madeUid (name : String) : String := "uid-" ++ name

/-- The name that the next operation made gets when this one is asked for. -/
def drawnName (c : Cluster) (asked : String) : String := c.naming asked (c.made + 1)

/-! ### Writes -/

/-- A requirement that is not stored. -/
def missing (name : String) : Error := .notFound Kind.requirement.name name

/-- Lays a status over that of a requirement. -/
def patchStatus (c : Cluster) (namespaceName name : String) (status : RequirementStatus) :
    Except Error Unit × Cluster :=
  if (c.requirement? namespaceName name).isSome then
    (.ok (), c.updateRequirement namespaceName name (·.withStatus status))
  else (.error (missing name), c)

/-- Adds a finalizer unless it is there. -/
def addFinalizer (c : Cluster) (namespaceName name finalizer : String) :
    Except Error Unit × Cluster :=
  let change (r : Requirement) : Requirement :=
    match r.metadata.withFinalizer? finalizer with
    | some finalizers => { r with metadata := { r.metadata with finalizers := some finalizers } }
    | none => r
  if (c.requirement? namespaceName name).isSome then
    (.ok (), c.updateRequirement namespaceName name change)
  else (.error (missing name), c)

/-- Whether a requirement that is being deleted has nothing left to wait for. -/
def isGone (r : Requirement) : Bool := r.isDeleting && (r.metadata.finalizers.getD []).isEmpty

/--
Takes a finalizer away from a requirement that has it; one that is being deleted goes with its last.
-/
def removeFinalizer (c : Cluster) (namespaceName name finalizer : String) : Cluster :=
  match c.requirement? namespaceName name with
  | none => c
  | some r =>
    if !r.metadata.hasFinalizer finalizer then c
    else if isGone (r.dropFinalizer finalizer) then c.removeRequirement namespaceName name
    else c.updateRequirement namespaceName name (·.dropFinalizer finalizer)

/-- Stores a new cache, unless there is one of its name. -/
def createCache (c : Cluster) (namespaceName : String) (x : Cache) : Bool × Cluster :=
  if (c.cache? namespaceName x.name).isSome then (false, c)
  else
    let (version, c) := c.nextVersion
    let metadata :=
      { x.metadata with uid := some (madeUid x.name), resourceVersion := some version }
    (true, { c with caches := c.caches ++ [{ x with metadata := metadata }] })

/-- Stores a new operation under the name drawn for it. -/
def createOperation (c : Cluster) (op : Operation) : Operation × Cluster :=
  let (version, c) := c.nextVersion
  let name := c.drawnName op.name
  let metadata :=
    { op.metadata with
      name := some name
      uid := some (madeUid name)
      resourceVersion := some version }
  let op := { op with metadata := metadata }
  (op, { c with operations := c.operations ++ [op], made := c.made + 1 })

/-- Replaces the owners of an operation that still has the version seen. -/
def patchOwners (c : Cluster) (namespaceName name seen : String) (owners : List OwnerReference) :
    Except Error Unit × Cluster :=
  let (version, c) := c.nextVersion
  let change (op : Operation) : Operation :=
    { op with
      metadata :=
        { op.metadata with ownerReferences := some owners, resourceVersion := some version } }
  let conflict (message : String) : Error := .conflict Kind.operation.name name message
  match c.operation? namespaceName name with
  | none => (.error (conflict "gone"), c)
  | some op =>
    if op.metadata.resourceVersion = some seen then
      (.ok (), c.updateOperation namespaceName name change)
    else (.error (conflict "resourceVersion changed"), c)

/-- The operations of a namespace that are labelled with a key. -/
def listOperations (c : Cluster) (namespaceName key : String) : List Operation :=
  c.operations.filter fun op =>
    decide (op.metadata.namespaceName = some namespaceName) && op.hasLabel keyLabel key

/-! ### Calls -/

/-- Answers a call; reads of caches and operations are served from `view`. -/
def serve (namespaceName : String) (view : Cluster) (c : Cluster) :
    (call : Call) → Except Error call.Reply × Cluster
  | .patchStatus name status => c.patchStatus namespaceName name status
  | .addFinalizer name finalizer => c.addFinalizer namespaceName name finalizer
  | .removeFinalizer name finalizer => (.ok (), c.removeFinalizer namespaceName name finalizer)
  | .getCache name => (.ok (view.cache? namespaceName name), c)
  | .createCache x =>
    let (created, c) := c.createCache namespaceName x
    (.ok created, c)
  | .getOperation name => (.ok (view.operation? namespaceName name), c)
  | .listOperations key => (.ok (view.listOperations namespaceName key), c)
  | .createOperation op =>
    let (op, c) := c.createOperation op
    (.ok op, c)
  | .patchOwners name seen owners => c.patchOwners namespaceName name seen owners

end Cluster

end WarmPool
