import WarmPool.Resource
import WarmPool.Template

/-!
# Operations

An operation is a template being provisioned or torn down. Its status is the work of others: the
phase, whether it sits in a pool from which it may be acquired, and when it was first ready.
-/

namespace WarmPool

/-- How far an operation has come. -/
inductive OperationPhase where
  | pending
  | provisioning
  | ready
  | tearingDown
  | deleted
deriving DecidableEq, Repr, Inhabited

namespace OperationPhase

/-- The phases by name. -/
def names : List (String × OperationPhase) :=
  [("Pending", pending), ("Provisioning", provisioning), ("Ready", ready),
    ("TearingDown", tearingDown), ("Deleted", deleted)]

/-- The name of a phase. -/
def name : OperationPhase → String
  | pending => "Pending"
  | provisioning => "Provisioning"
  | ready => "Ready"
  | tearingDown => "TearingDown"
  | deleted => "Deleted"

end OperationPhase

/-- The status of an operation. -/
structure OperationStatus where
  phase : OperationPhase := .pending
  /-- Whether the operation sits in a pool and may be acquired. -/
  ownerTransferable : Bool := false
  readyTime : Option Timestamp := none
deriving DecidableEq, Repr, Inhabited

namespace OperationStatus

/-- The fields in order. -/
def fieldNames : List String := ["phase", "ownerTransferable", "readyTime"]

/-- Reads a status. -/
def decode? (v : Json) : Option OperationStatus := do
  let fields ← v.recordFields? fieldNames
  pure
    { phase := ← Json.defaulted? .pending (Json.toChoice? OperationPhase.names) "phase" fields
      ownerTransferable := ← Json.defaulted? false Json.toBool? "ownerTransferable" fields
      readyTime := ← Json.optional? Json.toTimestamp? "readyTime" fields }

/-- Writes a status. -/
def encode (s : OperationStatus) : Json :=
  .object <|
    [Json.stringField "phase" s.phase.name, ("ownerTransferable", .bool s.ownerTransferable)] ++
    Json.optionalField "readyTime" (fun t => Json.string t.text) s.readyTime

end OperationStatus

/-- A template being provisioned or torn down. -/
structure Operation where
  metadata : Metadata
  spec : Template
  status : Option OperationStatus := none
deriving DecidableEq, Repr, Inhabited

namespace Operation

/-- Reads an operation. -/
def decode? (v : Json) : Option Operation :=
  (Resource.decode? Template.decode? OperationStatus.decode? v).map fun (m, s, t) => ⟨m, s, t⟩

/-- Writes an operation. -/
def encode (op : Operation) : Json :=
  Resource.encode .operation op.metadata op.spec.encode (op.status.map OperationStatus.encode)

/-- The name to show and to ask for. -/
def name (op : Operation) : String := op.metadata.anyName

/-- The phase, pending before there is a status. -/
def phase (op : Operation) : OperationPhase := (op.status.map (·.phase)).getD .pending

/-- Whether the operation is ready. -/
def isReady (op : Operation) : Bool := op.phase = .ready

/-- Whether the operation may be acquired from its pool. -/
def isTransferable (op : Operation) : Bool := (op.status.map (·.ownerTransferable)).getD false

/-- When the operation was first ready. -/
def readyTime? (op : Operation) : Option Timestamp := op.status.bind (·.readyTime)

/-- Whether the operation carries a label with this value. -/
def hasLabel (op : Operation) (label value : String) : Bool :=
  (op.metadata.labels.bind (·.get? label)) = some value

end Operation

end WarmPool
