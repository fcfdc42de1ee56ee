import WarmPool.Json.Decode

/-!
# Conditions

A condition asserts something about a resource, with a status, a reason and the time of the last
change of its status. `Conditions.set` keeps a list of conditions a set by type: an update replaces
the entry of its type in place, and an update with the same status keeps the time of the entry.
-/

namespace WarmPool

/-- Whether what a condition asserts holds. -/
inductive ConditionStatus where
  | true
  | false
  | unknown
deriving DecidableEq, Repr, Inhabited

namespace ConditionStatus

/-- The statuses by name. -/
def names : List (String × ConditionStatus) :=
  [("True", .true), ("False", .false), ("Unknown", .unknown)]

/-- The name of a status. -/
def name : ConditionStatus → String
  | true => "True"
  | false => "False"
  | unknown => "Unknown"

end ConditionStatus

/-- An assertion about a resource. -/
structure Condition where
  type : String
  status : ConditionStatus
  reason : String
  message : String
  /-- When the status last changed. -/
  lastTransitionTime : Timestamp
deriving DecidableEq, Repr, Inhabited

namespace Condition

/-- The fields in order. -/
def fieldNames : List String := ["type", "status", "reason", "message", "lastTransitionTime"]

/-- Reads a condition. -/
def decode? (v : Json) : Option Condition := do
  let fields ← v.recordFields? fieldNames
  pure
    { type := ← Json.required? Json.toString? "type" fields
      status := ← Json.required? (Json.toChoice? ConditionStatus.names) "status" fields
      reason := ← Json.required? Json.toString? "reason" fields
      message := ← Json.required? Json.toString? "message" fields
      lastTransitionTime := ← Json.required? Json.toTimestamp? "lastTransitionTime" fields }

/-- Writes a condition. -/
def encode (c : Condition) : Json :=
  .object
    [Json.stringField "type" c.type, Json.stringField "status" c.status.name,
      Json.stringField "reason" c.reason, Json.stringField "message" c.message,
      Json.stringField "lastTransitionTime" c.lastTransitionTime.text]

end Condition

namespace Conditions

/-- The first condition of a type. -/
def find? (conditions : List Condition) (type : String) : Option Condition :=
  conditions.find? fun c => c.type = type

/-- Whether the first condition of a type has the status true. -/
def holds (conditions : List Condition) (type : String) : Bool :=
  ((find? conditions type).map fun c => decide (c.status = .true)).getD false

/-- What the update `c` makes of an entry of its type: the time stays unless the status changes. -/
def update (entry c : Condition) : Condition :=
  if entry.status = c.status then { c with lastTransitionTime := entry.lastTransitionTime } else c

/-- Updates the first entry of the type of `c`, or puts `c` at the end. -/
def set (conditions : List Condition) (c : Condition) : List Condition :=
  match conditions with
  | [] => [c]
  | entry :: rest => if entry.type = c.type then update entry c :: rest else entry :: set rest c

/-- Whether an update changes the list. -/
def changes (conditions : List Condition) (c : Condition) : Bool :=
  match find? conditions c.type with
  | none => true
  | some entry => decide (entry ≠ update entry c)

end Conditions

end WarmPool
