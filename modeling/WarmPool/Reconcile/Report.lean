import WarmPool.Reconcile.Plan

/-!
# Reports

What a reconcile writes into the status of a requirement: its conditions, each with a reason and a
message. `commit` is the one way in which a plan writes a status, and it writes only a difference.
-/

namespace WarmPool.RequirementStatus

/-- The status with a condition updated. -/
def withCondition (s : RequirementStatus) (type : String) (status : ConditionStatus)
    (reason message : String) (now : Timestamp) : RequirementStatus :=
  { s with conditions := Conditions.set s.conditions ⟨type, status, reason, message, now⟩ }

/-- The type of the condition that tells whether the specification was taken in. -/
def initializedType : String := "RequirementInitialized"

/-- The type of the condition that tells whether the cache is there. -/
def cacheFoundType : String := "CacheCRFound"

/-- The type of the condition that tells whether an operation was claimed from a pool. -/
def acquiredType : String := "CachedOpAcquired"

/-- The type of the condition that tells whether the bound operation is ready. -/
def readyType : String := "OperationReady"

/-- The specification is wrong. -/
def invalidSpec (s : RequirementStatus) (message : String) (now : Timestamp) : RequirementStatus :=
  s.withCondition initializedType .false "InvalidSpec" message now

/-- The specification was taken in, its template having this key. -/
def taken (s : RequirementStatus) (key : String) (now : Timestamp) : RequirementStatus :=
  s.withCondition initializedType .true "Initialized" ("template hashed to " ++ key) now

/-- The cache has not been looked for yet. -/
def cacheUnknown (s : RequirementStatus) (cache : String) (now : Timestamp) : RequirementStatus :=
  s.withCondition cacheFoundType .false "CacheCRNotFound" ("looking up " ++ cache) now

/-- The cache is there. -/
def cacheFound (s : RequirementStatus) (cache : String) (now : Timestamp) : RequirementStatus :=
  s.withCondition cacheFoundType .true "CacheCRFound" (cache ++ " exists") now

/-- The cache was made just now, so its pool is empty. -/
def poolEmpty (s : RequirementStatus) (cache : String) (now : Timestamp) : RequirementStatus :=
  s.withCondition acquiredType .false "NoOperationAvailable"
    (cache ++ " has no warm operation yet") now

/-- The pool of the cache has nothing to claim. -/
def nothingAcquirable (s : RequirementStatus) (cache : String) (now : Timestamp) :
    RequirementStatus :=
  s.withCondition acquiredType .false "NoOperationAvailable"
    (cache ++ " has no acquirable operation") now

/-- An operation was claimed from the pool of the cache. -/
def acquired (s : RequirementStatus) (operation cache : String) (now : Timestamp) :
    RequirementStatus :=
  s.withCondition acquiredType .true "CacheHit" ("acquired " ++ operation ++ " from " ++ cache) now

/-- An operation was made for this requirement alone. -/
def provisioned (s : RequirementStatus) (operation : String) (now : Timestamp) :
    RequirementStatus :=
  s.withCondition acquiredType .false "CacheMiss"
    (operation ++ " provisioned for this requirement") now

/-- The bound operation is ready. -/
def operationReady (s : RequirementStatus) (operation : String) (now : Timestamp) :
    RequirementStatus :=
  s.withCondition readyType .true "OperationReady" (operation ++ " is Ready") now

/-- The bound operation is in a phase other than ready. -/
def operationNotReady (s : RequirementStatus) (operation : String) (phase : OperationPhase)
    (now : Timestamp) : RequirementStatus :=
  s.withCondition readyType .false "OperationNotReady" (operation ++ " is " ++ phase.name) now

/-- The bound operation is gone. -/
def operationLost (s : RequirementStatus) (message : String) (now : Timestamp) :
    RequirementStatus :=
  s.withCondition readyType .false "OperationLost" message now

end WarmPool.RequirementStatus

namespace WarmPool.Reconcile

/-- The status as it is written for this version of the requirement. -/
def observed (r : Requirement) (status : RequirementStatus) : RequirementStatus :=
  { status with observedGeneration := r.metadata.generation }

/-- Writes the status unless it is what the requirement has; tells whether it was written. -/
def commit (r : Requirement) (status : RequirementStatus) : Plan Bool :=
  if r.status = some (observed r status) then pure false
  else do
    Plan.ask r.namespaceName (.patchStatus r.name (observed r status))
    pure true

/-- An error of the reconciler itself. -/
def internalError (message : String) : Error := .internal "reconciler" message

/-- The UID of the requirement, without which nothing can be held. -/
def uidOf (r : Requirement) : Plan String :=
  Plan.orFail (internalError "Requirement has no UID") r.metadata.uid

/-- The resource version of an operation, without which its owners cannot be replaced. -/
def versionOf (op : Operation) : Plan String :=
  Plan.orFail (internalError ("operation " ++ op.name ++ " has no resourceVersion"))
    op.metadata.resourceVersion

/-- The reference by which a requirement with this UID holds an operation. -/
def holderReference (r : Requirement) (uid : String) (controller : Bool) : OwnerReference :=
  ownerReference .requirement r.metadata uid controller

end WarmPool.Reconcile
