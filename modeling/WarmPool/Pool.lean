import WarmPool.Operation
import WarmPool.Cache

/-!
# The warm pool

Which operation of a pool a requirement should try to claim. The choice is the least acquirable
member by ready time and then by name, so all who look at the same pool race for the same one.
-/

namespace WarmPool.Pool

/-- Whether this reference names the cache as controlling owner: by UID, or by name without one. -/
def ownedByCache (cache : Cache) (owner : OwnerReference) : Bool :=
  owner.kind = Kind.cache.name &&
    match cache.metadata.uid with
    | some uid => owner.uid = uid
    | none => owner.name = cache.name

/--
Whether an operation can be claimed from the pool of a cache: ready, transferable, not being
deleted, controlled by the cache and held by no requirement.
-/
def isAcquirable (cache : Cache) (op : Operation) : Bool :=
  op.isReady && op.isTransferable && op.metadata.deletionTimestamp.isNone &&
    (op.metadata.ownersOfKind Kind.requirement.name).isEmpty &&
    (op.metadata.controllerOwner?.map (ownedByCache cache)).getD false

/-- Whether an operation comes before another: ready times first, the earlier one, then the name. -/
def precedes (a b : Operation) : Bool :=
  match a.readyTime?, b.readyTime? with
  | some s, some t => s < t || (s = t && a.name < b.name)
  | some _, none => true
  | none, some _ => false
  | none, none => a.name < b.name

/-- The first of the least operations. -/
def least? : List Operation → Option Operation
  | [] => none
  | op :: rest =>
    match least? rest with
    | some other => if precedes other op then some other else some op
    | none => some op

/-- The members of the pool that can be claimed. -/
def candidates (cache : Cache) (operations : List Operation) : List Operation :=
  (operations.filter fun op => cache.pool.contains op.name).filter (isAcquirable cache)

/-- The operation to claim from the pool of a cache. -/
def select? (cache : Cache) (operations : List Operation) : Option Operation :=
  least? (candidates cache operations)

/-- Whether a requirement holds an operation without controlling it. -/
def isClaimedBy (uid : String) (op : Operation) : Bool :=
  (op.metadata.ownersOfKind Kind.requirement.name).any fun r => r.uid = uid && !r.isController

/-- The first operation that a requirement holds without controlling it. -/
def claimedBy? (uid : String) (operations : List Operation) : Option Operation :=
  operations.find? (isClaimedBy uid)

end WarmPool.Pool
