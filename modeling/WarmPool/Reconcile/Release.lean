import WarmPool.Reconcile.Report
import WarmPool.Reconcile.Settings

/-!
# Releasing a deleted requirement

A deleted requirement first says so in its status. Then it hands back every operation that it holds
without controlling it, and only after the last of them does it give up its finalizer. Operations
that it controls are left to the cluster.
-/

namespace WarmPool.Reconcile

/-- Whether the first reference to this UID is not that of a controlling owner. -/
def isHeldBy (uid : String) (op : Operation) : Bool :=
  ((op.metadata.findOwner? uid).map fun owner => !owner.isController).getD false

/-- Hands one operation of a namespace back. -/
def release (namespaceName uid : String) (op : Operation) : Plan Unit := do
  let version ← versionOf op
  Plan.ask namespaceName (.patchOwners op.name version (op.metadata.withoutOwner uid))
  Plan.count .released
  Plan.tell (.operationReleased op.name)

/-- Hands back the operations of a list that are held, in order. -/
def releaseAll (namespaceName uid : String) : List Operation → Plan Unit
  | [] => pure ()
  | op :: rest =>
    if isHeldBy uid op then do
      release namespaceName uid op
      releaseAll namespaceName uid rest
    else releaseAll namespaceName uid rest

/-- Hands back the operations of the key in the status. -/
def releaseClaims (r : Requirement) (status : RequirementStatus) : Plan Unit :=
  match status.key with
  | none => pure ()
  | some key => do
    let uid ← uidOf r
    let operations ← Plan.ask r.namespaceName (.listOperations key)
    releaseAll r.namespaceName uid operations

/-- Goes on with the deletion of a requirement. -/
def delete (r : Requirement) (status : RequirementStatus) : Plan Action :=
  if !r.hasFinalizer then pure .awaitChange
  else if status.phase = .deleting ∨ status.phase = .deleted then do
    releaseClaims r status
    let _ ← commit r { status with phase := .deleted }
    Plan.ask r.namespaceName (.removeFinalizer r.name requirementFinalizer)
    pure .awaitChange
  else do
    let _ ← commit r { status with phase := .deleting }
    pure (.requeue .zero)

end WarmPool.Reconcile
