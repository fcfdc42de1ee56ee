import WarmPool.Requirement

/-!
# Events

What is told to the users of a requirement. An event is about one object, which an
`ObjectReference` names; the reasons and actions of the reconciler are listed here.
-/

namespace WarmPool

/-- A reference to an object that an event is about. -/
structure ObjectReference where
  apiVersion : String
  kind : String
  namespaceName : Option String
  name : Option String
  uid : Option String
deriving DecidableEq, Repr, Inhabited

/-- The reference to a requirement. -/
def Requirement.reference (r : Requirement) : ObjectReference where
  apiVersion := apiVersion
  kind := Kind.requirement.name
  namespaceName := r.metadata.namespaceName
  name := r.metadata.name
  uid := r.metadata.uid

/-- How serious an event is. -/
inductive Severity where
  | normal
  | warning
deriving DecidableEq, Repr, Inhabited

/-- The name of a severity. -/
def Severity.name : Severity → String
  | normal => "Normal"
  | warning => "Warning"

/-- The severity of a name. -/
def Severity.ofName? (s : String) : Option Severity :=
  [normal, warning].find? fun v => v.name = s

/-- Something that happened to an object. -/
structure Event where
  severity : Severity
  /-- A word for what happened. -/
  reason : String
  /-- A word for what was being done. -/
  action : String
  note : Option String
deriving DecidableEq, Repr, Inhabited

namespace Event

/-- The specification is not valid. -/
def invalidSpec (note : String) : Event := ⟨.warning, "InvalidSpec", "Reconcile", some note⟩

/-- A cache was made. -/
def cacheCreated (cache : String) : Event :=
  ⟨.normal, "CacheCreated", "Create", some ("created " ++ cache)⟩

/-- An operation was claimed from the pool of a cache. -/
def cacheHit (operation cache : String) : Event :=
  ⟨.normal, "CacheHit", "Acquire", some ("claimed " ++ operation ++ " from " ++ cache)⟩

/-- An operation was made for one requirement. -/
def operationCreated (operation : String) : Event :=
  ⟨.normal, "OperationCreated", "Create", some ("created " ++ operation)⟩

/-- The bound operation became ready. -/
def operationReady (operation : String) : Event :=
  ⟨.normal, "OperationReady", "Reconcile", some (operation ++ " is Ready")⟩

/-- A claimed operation was handed back. -/
def operationReleased (operation : String) : Event :=
  ⟨.normal, "OperationReleased", "Delete", some ("released " ++ operation)⟩

end Event

end WarmPool
