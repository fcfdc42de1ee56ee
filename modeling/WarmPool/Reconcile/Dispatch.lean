import WarmPool.Reconcile.Follow
import WarmPool.Reconcile.Release

/-!
# Reconciling a requirement

`Reconcile.plan` decides what one reconcile does: a deleted requirement is released, an invalid one
is reported, and otherwise the phase decides.
-/

namespace WarmPool.Reconcile

/-- Reports a wrong specification; nothing else is done until it changes. -/
def reportInvalid (r : Requirement) (status : RequirementStatus) (e : Error) (now : Timestamp) :
    Plan Action := do
  let written ← commit r (status.invalidSpec e.message now)
  if written then Plan.tell (.invalidSpec e.message)
  pure .awaitChange

/-- Goes on with a requirement whose specification is valid. -/
def advance (settings : Settings) (occasion : Occasion) (r : Requirement)
    (status : RequirementStatus) : Plan Action :=
  match status.phase, status.operationName with
  | .initial, _ => takeIn r status occasion.now
  | .cacheChecking, _ => checkCache settings r status occasion.now
  | .operating, some operation => follow settings r status operation occasion.now
  | .operating, none =>
    if r.spec.enableCache then commitThen r { status with phase := .cacheChecking } .zero
    else ensureOwned settings r status occasion
  | .ready, some operation => follow settings r status operation occasion.now
  | .ready, none => lose r status "no operation bound" occasion.now
  | .deleting, _ | .deleted, _ => pure .awaitChange

/-- What one reconcile of a requirement does. -/
def plan (settings : Settings) (occasion : Occasion) (r : Requirement) : Plan Action :=
  let status := r.status.getD {}
  if r.metadata.namespaceName.isNone then
    Plan.fail ((Error.invalid "Requirement must be namespaced").forResource r.name)
  else if r.isDeleting then delete r status
  else
    match r.spec.validate with
    | .error e => reportInvalid r status (e.forResource r.name) occasion.now
    | .ok () => advance settings occasion r status

end WarmPool.Reconcile
