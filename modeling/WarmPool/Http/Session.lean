import WarmPool.Controller
import WarmPool.Http.Recorder

/-!
# Reconciling over HTTP

A reconcile whose calls and events go to an API server. The session keeps what outlives it: the
events published so far and the ledger of failures.
-/

namespace WarmPool.Http

open Reconcile

/-- What a controller keeps between reconciles. -/
structure Session where
  recorder : Recorder
  ledger : Ledger := {}
deriving DecidableEq, Repr

namespace Session

/-- Carries a plan out, the events being about the given object. -/
def carryOut (about : ObjectReference) (now : Timestamp) (recorder : Recorder) :
    Plan α → Exchange (Except Error α × Recorder)
  | .done result => .done (result, recorder)
  | .event e next => do
    let recorder ← recorder.publish now about e
    carryOut about now recorder next
  | .measure _ next => carryOut about now recorder next
  | .call namespaceName c next => do
    let reply ← ApiClient.perform namespaceName c
    carryOut about now recorder (next reply)

/--
Carries a plan out up to the deadline. No request is answered at once, so where there is no time at
all the first one is cut off before it is sent.
-/
def carryOutInTime (timeout : Duration) (x : Exchange (Except Error Action × Recorder))
    (recorder : Recorder) : Exchange (Controller.Ending × Recorder) :=
  if timeout = .zero then
    match x.immediate? with
    | some (result, recorder) => .done (.finished result, recorder)
    | none => .done (.cutOff, recorder)
  else x.bind fun (result, recorder) => .done (.finished result, recorder)

/-- Reconciles a requirement. -/
def reconcile (settings : Settings) (occasion : Occasion) (s : Session) (r : Requirement) :
    Exchange (Except Error Action × Session) := do
  let work :=
    carryOut r.reference occasion.now s.recorder (Reconcile.plan settings occasion r)
  let (ending, recorder) ← carryOutInTime settings.timeout work s.recorder
  let result := Controller.result settings r ending
  pure (result, ⟨recorder, Controller.settle r s.ledger result⟩)

/-- Reacts to the error of a reconcile. -/
def react (settings : Settings) (s : Session) (r : Requirement) (e : Error)
    (draw : Backoff.Draw) : Option Action × Session :=
  let (action, ledger) := Controller.react settings s.ledger r e draw
  (action, { s with ledger := ledger })

end Session

end WarmPool.Http
