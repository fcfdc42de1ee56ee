import WarmPool.Reconcile.Acquire

/-!
# Following a bound operation

A requirement shows whether its operation is ready, and lets go of one that is gone or no longer
refers to it.
-/

namespace WarmPool.Reconcile

/-- Unbinds a lost operation and starts over. -/
def lose (r : Requirement) (status : RequirementStatus) (message : String) (now : Timestamp) :
    Plan Action :=
  commitThen r
    { status.operationLost message now with
      operationName := none
      phase := if r.spec.enableCache then .cacheChecking else .operating }
    .zero

/-- Records that the bound operation is ready. -/
def showReady (settings : Settings) (r : Requirement) (status : RequirementStatus)
    (operation : String) (now : Timestamp) : Plan Action := do
  let _ ← commit r { status.operationReady operation now with phase := .ready }
  if status.phase = .ready then pure () else Plan.tell (.operationReady operation)
  pure (.requeue settings.readyResync)

/-- Records that the bound operation is not ready. -/
def showNotReady (settings : Settings) (r : Requirement) (status : RequirementStatus)
    (operation : String) (phase : OperationPhase) (now : Timestamp) : Plan Action :=
  commitThen r { status.operationNotReady operation phase now with phase := .operating }
    settings.readinessPoll

/-- Looks at the bound operation. -/
def follow (settings : Settings) (r : Requirement) (status : RequirementStatus)
    (operation : String) (now : Timestamp) : Plan Action := do
  let uid ← uidOf r
  match ← Plan.ask r.namespaceName (.getOperation operation) with
  | none => lose r status (operation ++ " was deleted") now
  | some op =>
    if (op.metadata.findOwner? uid).isNone then
      lose r status (operation ++ " no longer references this requirement") now
    else if op.isReady then showReady settings r status operation now
    else showNotReady settings r status operation op.phase now

end WarmPool.Reconcile
