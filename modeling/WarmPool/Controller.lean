import WarmPool.Reconcile.Dispatch

/-!
# The controller

What stands around a reconcile: the deadline, the counts, and the ledger of consecutive failures
from which the delay before the next attempt is taken. A success clears the entry of its
requirement, a failure that may pass adds to it, and conflicts and final errors leave it as it is.
-/

namespace WarmPool

open Reconcile

/-- The consecutive failures of each requirement, by its key. -/
structure Ledger where
  entries : List (String × Nat) := []
deriving DecidableEq, Repr, Inhabited

namespace Ledger

/-- The greatest number of failures that is told apart from fewer. -/
def maxCount : Nat := 2 ^ (32 : Nat) - 1

/-- The failures of a key since its last success. -/
def count (l : Ledger) (key : String) : Nat :=
  ((l.entries.find? fun e => e.1 = key).map Prod.snd).getD 0

/-- Forgets the failures of a key. -/
def clear (l : Ledger) (key : String) : Ledger := ⟨l.entries.filter fun e => e.1 ≠ key⟩

/-- Adds a failure of a key. -/
def add (l : Ledger) (key : String) : Ledger :=
  ⟨(key, min (l.count key + 1) maxCount) :: (l.clear key).entries⟩

end Ledger

/-- The key of a requirement in the ledger: namespace and name. -/
def Requirement.ledgerKey (r : Requirement) : String :=
  r.namespaceName ++ "/" ++ r.name

namespace Controller

/-- How the plan of a reconcile ended. -/
inductive Ending where
  | finished (result : Except Error Action)
  /-- The deadline passed during a call. -/
  | cutOff

/-- The result of a reconcile. -/
def result (settings : Settings) (r : Requirement) : Ending → Except Error Action
  | .finished result => result
  | .cutOff => .error (.timeout r.ledgerKey settings.timeout.seconds)

/-- What is counted at the end of a reconcile. -/
def measures : Except Error Action → List Measure
  | .ok _ => [.reconciled true]
  | .error e => [.reconciled false, .failed e.label]

/-- The ledger after a reconcile. -/
def settle (r : Requirement) (ledger : Ledger) : Except Error Action → Ledger
  | .ok _ => ledger.clear r.ledgerKey
  | .error _ => ledger

/--
What to do about the error of a reconcile, and the ledger after it: a conflict is tried again at
once, a final error waits for a change, and any other is tried again after the delay for the number
of failures so far. There is no action where the schedule has no delay.
-/
def react (settings : Settings) (ledger : Ledger) (r : Requirement) (e : Error)
    (draw : Backoff.Draw) : Option Action × Ledger :=
  if e.isConflict then (some (.requeue .zero), ledger)
  else if !e.isRetryable then (some .awaitChange, ledger)
  else
    let ledger := ledger.add r.ledgerKey
    ((settings.backoff.delay? (ledger.count r.ledgerKey) draw).map .requeue, ledger)

end Controller

end WarmPool
