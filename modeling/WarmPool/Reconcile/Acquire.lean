import WarmPool.Pool
import WarmPool.Reconcile.Report
import WarmPool.Reconcile.Settings
import WarmPool.TemplateKey

/-!
# Acquiring an operation

How a requirement comes to an operation. With caching it finds or makes the cache of its key and
claims an operation from the pool, by replacing the owners of the very version it has seen; it never
makes an operation of its own. Without caching it makes one operation that it controls.
-/

namespace WarmPool.Reconcile

/-- Writes the status and comes back after this long. -/
def commitThen (r : Requirement) (status : RequirementStatus) (after : Duration) : Plan Action := do
  let _ ← commit r status
  pure (.requeue after)

/-- Takes a new requirement in: the finalizer, the key, and the way to an operation. -/
def takeIn (r : Requirement) (status : RequirementStatus) (now : Timestamp) : Plan Action := do
  if r.hasFinalizer then pure ()
  else Plan.ask r.namespaceName (.addFinalizer r.name requirementFinalizer)
  let key := r.spec.template.key
  let status := status.taken key now
  let status :=
    if r.spec.enableCache then
      { status.cacheUnknown (Cache.nameForKey key) now with
        key := some key
        phase := .cacheChecking }
    else { status with phase := .operating }
  commitThen r status .zero

/-- The cache that a requirement makes for a key. -/
def newCache (settings : Settings) (r : Requirement) (key : String) : Cache :=
  let sizing := r.spec.cacheSpec.getD {}
  { metadata :=
      { name := some (Cache.nameForKey key)
        namespaceName := r.metadata.namespaceName
        labels := some (StringMap.ofList [(keyLabel, key)]) }
    spec :=
      { template := r.spec.template
        keepAliveCount := sizing.keepAliveCount.getD settings.defaultKeepAliveCount
        keepAliveDuration := sizing.keepAliveDuration.getD settings.defaultKeepAliveDuration } }

/-- Makes the cache of a key and waits for its pool. -/
def makeCache (settings : Settings) (r : Requirement) (status : RequirementStatus) (key : String)
    (now : Timestamp) : Plan Action := do
  let cache := Cache.nameForKey key
  let created ← Plan.ask r.namespaceName (.createCache (newCache settings r key))
  if created then Plan.tell (.cacheCreated cache)
  Plan.count (.lookup .empty)
  commitThen r ((status.cacheFound cache now).poolEmpty cache now) settings.cachePoll

/-- Binds the requirement to an operation that it holds from the pool of a cache. -/
def recordClaim (settings : Settings) (r : Requirement) (status : RequirementStatus)
    (cache operation : String) (now : Timestamp) : Plan Action :=
  commitThen r
    { status.acquired operation cache now with
      operationName := some operation
      phase := .operating }
    settings.readinessPoll

/-- Claims an operation: its owners become those seen and the requirement. -/
def claim (settings : Settings) (r : Requirement) (status : RequirementStatus)
    (cache uid : String) (op : Operation) (now : Timestamp) : Plan Action := do
  let version ← versionOf op
  let owners := op.metadata.withOwner (holderReference r uid false)
  match ← Plan.attempt r.namespaceName (.patchOwners op.name version owners) with
  | .ok _ =>
    Plan.count (.lookup .hit)
    Plan.tell (.cacheHit op.name cache)
    recordClaim settings r status cache op.name now
  | .error e =>
    if e.isConflict then Plan.count .claimConflict
    Plan.fail e

/--
Looks for an operation in the pool of a cache: one that the requirement holds already from a claim
that was not recorded, or else the one to claim.
-/
def searchPool (settings : Settings) (r : Requirement) (status : RequirementStatus)
    (key uid : String) (cache : Cache) (now : Timestamp) : Plan Action := do
  let cacheName := Cache.nameForKey key
  let status := status.cacheFound cacheName now
  let operations ← Plan.ask r.namespaceName (.listOperations key)
  match Pool.claimedBy? uid operations with
  | some op => recordClaim settings r status cacheName op.name now
  | none =>
    match Pool.select? cache operations with
    | some op => claim settings r status cacheName uid op now
    | none =>
      Plan.count (.lookup .empty)
      commitThen r (status.nothingAcquirable cacheName now) settings.cachePoll

/-- The key that a requirement looks for: the one in its status, or else that of its template. -/
def soughtKey (r : Requirement) (status : RequirementStatus) : String :=
  status.key.getD r.spec.template.key

/-- Finds or makes the cache of the key, and claims an operation from its pool. -/
def checkCache (settings : Settings) (r : Requirement) (status : RequirementStatus)
    (now : Timestamp) : Plan Action := do
  let key := soughtKey r status
  let status := { status with key := some key }
  let uid ← uidOf r
  match ← Plan.ask r.namespaceName (.getCache (Cache.nameForKey key)) with
  | some cache => searchPool settings r status key uid cache now
  | none => makeCache settings r status key now

/-- The labels of an operation made for a requirement; a name too long for a label is left out. -/
def newLabels (r : Requirement) (key : String) : StringMap :=
  let labels := StringMap.ofList [(keyLabel, key)]
  if r.name.utf8ByteSize ≤ Label.maxLength then labels.insert requirementLabel r.name else labels

/-- The operation that a requirement makes for itself and controls. -/
def newOperation (r : Requirement) (key uid suffix : String) : Operation where
  metadata :=
    { name := some (key ++ "-" ++ suffix)
      namespaceName := r.metadata.namespaceName
      labels := some (newLabels r key)
      ownerReferences := some [holderReference r uid true] }
  spec := r.spec.template

/-- Whether an operation is controlled by the owner with this UID. -/
def isControlledBy (uid : String) (op : Operation) : Bool :=
  (op.metadata.controllerOwner?.map fun owner => decide (owner.uid = uid)).getD false

/-- The operation that the requirement controls, made if there is none. -/
def ownOperation (r : Requirement) (key uid suffix : String) : Plan String := do
  let operations ← Plan.ask r.namespaceName (.listOperations key)
  match operations.find? (isControlledBy uid) with
  | some op => pure op.name
  | none => do
    let op ← Plan.ask r.namespaceName (.createOperation (newOperation r key uid suffix))
    Plan.tell (.operationCreated op.name)
    pure op.name

/-- Binds a requirement without caching to an operation of its own. -/
def ensureOwned (settings : Settings) (r : Requirement) (status : RequirementStatus)
    (occasion : Occasion) : Plan Action := do
  let uid ← uidOf r
  let operation ← ownOperation r r.spec.template.key uid occasion.suffixText
  Plan.count (.lookup .miss)
  commitThen r
    { status.provisioned operation occasion.now with
      operationName := some operation
      phase := .operating }
    settings.readinessPoll

end WarmPool.Reconcile
