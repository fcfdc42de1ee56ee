import WarmPool.Cluster
import WarmPool.Controller

/-!
# Rehearsals

A reconcile on a cluster in memory that is made to misbehave: calls that fail before they take
effect, calls that take time, and reads served from a past state. `Rehearsal.run` runs a plan until
it is done or a call outlasts the deadline, and keeps what it called and told.
-/

namespace WarmPool

open Reconcile

/-- The name of the method behind a call. -/
def Reconcile.Call.method : Call → String
  | .patchStatus .. => "patch_status"
  | .addFinalizer .. => "add_finalizer"
  | .removeFinalizer .. => "remove_finalizer"
  | .getCache _ => "get_cache"
  | .createCache _ => "create_cache"
  | .getOperation _ => "get_operation"
  | .listOperations _ => "list_operations"
  | .createOperation _ => "create_operation"
  | .patchOwners .. => "patch_operation_owners"

/-- A failure to come: after `skip` calls of a method that pass, `times` calls fail. -/
structure PlannedFailure where
  method : String
  error : Error
  skip : Nat := 0
  times : Nat := 1
deriving DecidableEq, Repr

namespace PlannedFailure

/-- Whether a call of a method is for this entry. -/
def awaits (f : PlannedFailure) (method : String) : Bool := f.method = method && f.times ≠ 0

/-- The failure of a call of a method, if it fails, by the first entry for it; and what is left. -/
def take? (method : String) : List PlannedFailure → Option Error × List PlannedFailure
  | [] => (none, [])
  | f :: rest =>
    if !f.awaits method then
      let (e, rest) := take? method rest
      (e, f :: rest)
    else if f.skip ≠ 0 then (none, { f with skip := f.skip - 1 } :: rest)
    else (some f.error, { f with times := f.times - 1 } :: rest)

end PlannedFailure

/-- A cluster in memory with its planned misbehaviour, and the controller's ledger. -/
structure Rehearsal where
  cluster : Cluster
  /-- The past state from which caches and operations are read. -/
  frozen : Option Cluster := none
  failures : List PlannedFailure := []
  /-- How long the calls of a method take. -/
  latencies : List (String × Duration) := []
  ledger : Ledger := {}

/-- What a reconcile called and told, in order. -/
structure Trace where
  /-- The calls, each with the namespace in which it was made. -/
  sent : List (String × Call) := []
  events : List Event := []
  measures : List Measure := []

/-- The calls, whatever the namespace. -/
def Trace.calls (t : Trace) : List Call := t.sent.map Prod.snd

namespace Rehearsal

/-! ### Names -/

/-- The characters before the last hyphen, or all of them. -/
def beforeLastHyphen (cs : List Char) : List Char :=
  match cs.reverse.dropWhile (· ≠ '-') with
  | [] => cs
  | _ :: before => before.reverse

/--
A name for the `n`-th operation made that does not depend on chance: the part of the name asked for
before the last hyphen, and the number.
-/
def numberedName (asked : String) (n : Nat) : String :=
  let digits := Decimal.numeral n
  String.ofList
    (beforeLastHyphen asked.toList ++ "-gen".toList ++
      List.replicate (2 - digits.length) '0' ++ digits)

/-! ### Answers -/

/-- How long the calls of a method take. -/
def latency (s : Rehearsal) (method : String) : Duration :=
  ((s.latencies.find? fun l => l.1 = method).map fun l => l.2.timer).getD .zero

/-- Sets how long the calls of a method take. -/
def setLatency (s : Rehearsal) (method : String) (latency : Duration) : Rehearsal :=
  { s with latencies := (method, latency) :: s.latencies.filter fun l => l.1 ≠ method }

/-- The state from which caches and operations are read. -/
def view (s : Rehearsal) : Cluster := s.frozen.getD s.cluster

/-- Serves reads of caches and operations from the present state from now on. -/
def freeze (s : Rehearsal) : Rehearsal := { s with frozen := some s.cluster }

/-- Serves reads from the live state again. -/
def thaw (s : Rehearsal) : Rehearsal := { s with frozen := none }

/-- Adds a failure to come, behind those planned before. -/
def plan (s : Rehearsal) (f : PlannedFailure) : Rehearsal :=
  { s with failures := s.failures ++ [f] }

/-- Answers a call in a namespace: a planned failure, or the answer of the cluster. -/
def answer (namespaceName : String) (s : Rehearsal) (c : Call) :
    Except Error c.Reply × Rehearsal :=
  match PlannedFailure.take? c.method s.failures with
  | (some e, failures) => (.error e, { s with failures := failures })
  | (none, failures) =>
    let (reply, cluster) := Cluster.serve namespaceName s.view s.cluster c
    (reply, { s with failures := failures, cluster := cluster })

/-- Whether a call that starts after `elapsed` and takes `latency` is cut off by the deadline. -/
def isCutOff (timeout elapsed latency : Duration) : Bool :=
  latency ≠ .zero && timeout.timer < elapsed + latency

/--
Runs a plan. A call is kept in the trace even when the deadline passes during it, in which case
nothing comes of it.
-/
def run (timeout : Duration) (elapsed : Duration) (s : Rehearsal) :
    Plan Action → Controller.Ending × Trace × Rehearsal
  | .done result => (.finished result, {}, s)
  | .event e next =>
    let (ending, trace, s) := run timeout elapsed s next
    (ending, { trace with events := e :: trace.events }, s)
  | .measure m next =>
    let (ending, trace, s) := run timeout elapsed s next
    (ending, { trace with measures := m :: trace.measures }, s)
  | .call namespaceName c next =>
    let latency := s.latency c.method
    if isCutOff timeout elapsed latency then (.cutOff, { sent := [(namespaceName, c)] }, s)
    else
      let answered := s.answer namespaceName c
      let (ending, trace, s) := run timeout (elapsed + latency) answered.2 (next answered.1)
      (ending, { trace with sent := (namespaceName, c) :: trace.sent }, s)

/-- Reconciles a requirement, with all that is counted and the ledger kept. -/
def reconcile (settings : Settings) (occasion : Occasion) (s : Rehearsal) (r : Requirement) :
    Except Error Action × Trace × Rehearsal :=
  let (ending, trace, s) := run settings.timeout .zero s (Reconcile.plan settings occasion r)
  let result := Controller.result settings r ending
  (result, { trace with measures := trace.measures ++ Controller.measures result },
    { s with ledger := Controller.settle r s.ledger result })

/-- Reacts to the error of a reconcile. -/
def react (settings : Settings) (s : Rehearsal) (r : Requirement) (e : Error)
    (draw : Backoff.Draw) : Option Action × Rehearsal :=
  let (action, ledger) := Controller.react settings s.ledger r e draw
  (action, { s with ledger := ledger })

/-! ### Changes by others -/

/-- When a user asked for deletion: the first of June 2024. -/
def deletionTime : Timestamp := ⟨1717200000, 0⟩

/-- Asks for the deletion of a requirement, which goes at once if it has no finalizers. -/
def delete (s : Rehearsal) (namespaceName name : String) : Option Rehearsal := do
  let r ← s.cluster.requirement? namespaceName name
  let mark (r : Requirement) : Requirement :=
    { r with metadata := { r.metadata with deletionTimestamp := some deletionTime } }
  let cluster :=
    if (r.metadata.finalizers.getD []).isEmpty then s.cluster.removeRequirement namespaceName name
    else s.cluster.updateRequirement namespaceName name mark
  pure { s with cluster := cluster }

/-- The object of a kind with this namespace and name. -/
def object? (s : Rehearsal) (kind : Kind) (namespaceName name : String) : Option Json :=
  match kind with
  | .requirement => (s.cluster.requirement? namespaceName name).map Requirement.encode
  | .cache => (s.cluster.cache? namespaceName name).map Cache.encode
  | .operation => (s.cluster.operation? namespaceName name).map Operation.encode

/-- Stores an object of a kind, if the value is one. -/
def put? (s : Rehearsal) (kind : Kind) (object : Json) : Option Rehearsal :=
  let cluster :=
    match kind with
    | .requirement => (Requirement.decode? object).map s.cluster.putRequirement
    | .cache => (Cache.decode? object).map s.cluster.putCache
    | .operation => (Operation.decode? object).map s.cluster.putOperation
  cluster.map fun cluster => { s with cluster := cluster }

/-- Removes an object of a kind. -/
def remove (s : Rehearsal) (kind : Kind) (namespaceName name : String) : Rehearsal :=
  let cluster :=
    match kind with
    | .requirement => s.cluster.removeRequirement namespaceName name
    | .cache => s.cluster.removeCache namespaceName name
    | .operation => s.cluster.removeOperation namespaceName name
  { s with cluster := cluster }

/--
Replaces an object of a kind by the value read from JSON; an operation gets the last version handed
out.
-/
def replace? (s : Rehearsal) (kind : Kind) (namespaceName name : String) (object : Json) :
    Option Rehearsal :=
  let cluster :=
    match kind with
    | .requirement =>
      (Requirement.decode? object).map fun r =>
        s.cluster.updateRequirement namespaceName name fun _ => r
    | .cache =>
      (Cache.decode? object).map fun x => s.cluster.updateCache namespaceName name fun _ => x
    | .operation =>
      (Operation.decode? object).map fun (op : Operation) =>
        let version := natText s.cluster.version
        s.cluster.updateOperation namespaceName name fun _ =>
          { op with metadata := { op.metadata with resourceVersion := some version } }
  cluster.map fun cluster => { s with cluster := cluster }

/-- What came of a merge patch. -/
inductive MergeOutcome where
  | merged
  /-- There is no such object. -/
  | missing
  /-- The result is not an object of its kind, so nothing changed. -/
  | invalid
deriving DecidableEq, Repr

/-- Lays a patch over an object of a kind. A patch of an operation takes a version in any case. -/
def merge (s : Rehearsal) (kind : Kind) (namespaceName name : String) (patch : Json) :
    MergeOutcome × Rehearsal :=
  let s := if kind = .operation then { s with cluster := s.cluster.nextVersion.2 } else s
  match s.object? kind namespaceName name with
  | none => (.missing, s)
  | some object =>
    match s.replace? kind namespaceName name (object.merge patch) with
    | some s => (.merged, s)
    | none => (.invalid, s)

end Rehearsal

end WarmPool
