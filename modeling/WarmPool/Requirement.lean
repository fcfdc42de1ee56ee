import WarmPool.Resource
import WarmPool.Template
import WarmPool.Duration

/-!
# Requirements

A requirement asks for an operation made from a template, from a warm pool if it may. Its status is
written by the reconciler alone: the phase, the key, the bound operation and the conditions.
-/

namespace WarmPool

/-- How far a requirement has come. -/
inductive RequirementPhase where
  /-- Not looked at yet. -/
  | initial
  /-- Looking for a cache or waiting for its pool. -/
  | cacheChecking
  /-- An operation is bound, or being made, and not ready. -/
  | operating
  | ready
  | deleting
  | deleted
deriving DecidableEq, Repr, Inhabited

namespace RequirementPhase

/-- The phases by name; the initial one has the empty name. -/
def names : List (String × RequirementPhase) :=
  [("", initial), ("CacheChecking", cacheChecking), ("Operating", operating), ("Ready", ready),
    ("Deleting", deleting), ("Deleted", deleted)]

/-- The name of a phase. -/
def name : RequirementPhase → String
  | initial => ""
  | cacheChecking => "CacheChecking"
  | operating => "Operating"
  | ready => "Ready"
  | deleting => "Deleting"
  | deleted => "Deleted"

end RequirementPhase

/-- The size of the cache that a requirement would make. -/
structure CacheSizing where
  keepAliveCount : Option UInt32 := none
  /-- A duration text. -/
  keepAliveDuration : Option String := none
deriving DecidableEq, Repr, Inhabited

namespace CacheSizing

/-- The fields in order. -/
def fieldNames : List String := ["keepAliveCount", "keepAliveDuration"]

/-- Reads a sizing. -/
def decode? (v : Json) : Option CacheSizing := do
  let fields ← v.recordFields? fieldNames
  pure
    { keepAliveCount := ← Json.optional? Json.toUInt32? "keepAliveCount" fields
      keepAliveDuration := ← Json.optional? Json.toString? "keepAliveDuration" fields }

/-- Writes a sizing. -/
def encode (s : CacheSizing) : Json :=
  .object <|
    Json.optionalField "keepAliveCount" Json.ofUInt32 s.keepAliveCount ++
    Json.optionalField "keepAliveDuration" Json.string s.keepAliveDuration

end CacheSizing

/-- What a user asks for. -/
structure RequirementSpec where
  template : Template
  /-- Whether a warm pool may serve the requirement. -/
  enableCache : Bool := false
  cacheSpec : Option CacheSizing := none
deriving DecidableEq, Repr, Inhabited

namespace RequirementSpec

/-- The fields in order. -/
def fieldNames : List String := ["template", "enableCache", "cacheSpec"]

/-- Reads a specification. -/
def decode? (v : Json) : Option RequirementSpec := do
  let fields ← v.recordFields? fieldNames
  pure
    { template := ← Json.required? Template.decode? "template" fields
      enableCache := ← Json.defaulted? false Json.toBool? "enableCache" fields
      cacheSpec := ← Json.optional? CacheSizing.decode? "cacheSpec" fields }

/-- Writes a specification. -/
def encode (s : RequirementSpec) : Json :=
  .object <|
    [("template", s.template.encode), ("enableCache", .bool s.enableCache)] ++
    Json.optionalField "cacheSpec" CacheSizing.encode s.cacheSpec

/-- The duration text that the specification gives for its cache. -/
def keepAliveDuration? (s : RequirementSpec) : Option String :=
  s.cacheSpec.bind (·.keepAliveDuration)

/-- Passes a valid specification: a valid template, and then a duration where one is given. -/
def validate (s : RequirementSpec) : Except Error Unit := do
  s.template.validate
  match s.keepAliveDuration? with
  | some text =>
    if (Duration.parse? text).isSome then .ok ()
    else .error (.invalidField "spec.cacheSpec.keepAliveDuration" (Duration.invalidMessage text))
  | none => .ok ()

end RequirementSpec

/-- What the reconciler knows about a requirement. -/
structure RequirementStatus where
  phase : RequirementPhase := .initial
  /-- The key of the template, once caching has been looked at. -/
  key : Option String := none
  /-- The operation that serves the requirement. -/
  operationName : Option String := none
  conditions : List Condition := []
  /-- The generation of the specification that was last looked at. -/
  observedGeneration : Option Int64 := none
deriving DecidableEq, Repr, Inhabited

namespace RequirementStatus

/-- The fields in order. -/
def fieldNames : List String :=
  ["phase", "cacheKey", "operationName", "conditions", "observedGeneration"]

/-- Reads a status. -/
def decode? (v : Json) : Option RequirementStatus := do
  let fields ← v.recordFields? fieldNames
  pure
    { phase := ← Json.defaulted? .initial (Json.toChoice? RequirementPhase.names) "phase" fields
      key := ← Json.optional? Json.toString? "cacheKey" fields
      operationName := ← Json.optional? Json.toString? "operationName" fields
      conditions := ← Json.defaulted? [] (Json.toList? Condition.decode?) "conditions" fields
      observedGeneration := ← Json.optional? Json.toInt64? "observedGeneration" fields }

/-- Writes a status. An unbound operation is written as null, so that a merge patch clears it. -/
def encode (s : RequirementStatus) : Json :=
  .object <|
    [Json.stringField "phase" s.phase.name] ++
    Json.optionalField "cacheKey" Json.string s.key ++
    [("operationName", Json.ofString? s.operationName),
      ("conditions", .array (s.conditions.map Condition.encode))] ++
    Json.optionalField "observedGeneration" Json.ofInt64 s.observedGeneration

end RequirementStatus

/-- A request for an operation. -/
structure Requirement where
  metadata : Metadata
  spec : RequirementSpec
  status : Option RequirementStatus := none
deriving DecidableEq, Repr, Inhabited

namespace Requirement

/-- Reads a requirement. -/
def decode? (v : Json) : Option Requirement :=
  (Resource.decode? RequirementSpec.decode? RequirementStatus.decode? v).map
    fun (m, s, t) => ⟨m, s, t⟩

/-- Writes a requirement. -/
def encode (r : Requirement) : Json :=
  Resource.encode .requirement r.metadata r.spec.encode (r.status.map RequirementStatus.encode)

/-- The name to show and to ask for. -/
def name (r : Requirement) : String := r.metadata.anyName

/-- The namespace, empty where there is none. -/
def namespaceName (r : Requirement) : String := r.metadata.namespaceName.getD ""

/-- The phase, initial before there is a status. -/
def phase (r : Requirement) : RequirementPhase := (r.status.map (·.phase)).getD .initial

/-- Whether deletion has been asked for. -/
def isDeleting (r : Requirement) : Bool := r.metadata.deletionTimestamp.isSome

/-- Whether our finalizer is there. -/
def hasFinalizer (r : Requirement) : Bool := r.metadata.hasFinalizer requirementFinalizer

end Requirement

end WarmPool
