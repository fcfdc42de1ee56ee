import WarmPool.Cache
import WarmPool.Manifest.Schema
import WarmPool.Operation
import WarmPool.Requirement

/-!
# Resource definitions

What an API server has to be told about the three kinds of resources: their names, the columns in
which they are listed, and the schemas of their specifications and statuses.
-/

namespace WarmPool.Manifest

/-! ### Schemas -/

/-- The schema of a job. -/
def job : Schema :=
  .record ["image"]
    [("image", Schema.text.described "Container image"),
      ("command", (Schema.list .text).described "Entrypoint override"),
      ("args", (Schema.list .text).described "Arguments passed to the entrypoint"),
      ("env", (Schema.map .text).described "Environment variables"),
      ("backoffLimit",
        ((Schema.integer "int32").nullable.described "Retries before the job is marked failed")),
      ("activeDeadlineSeconds",
        ((Schema.integer "int64").nullable.described "Wall-clock limit for the job"))]

/-- The schema of an application. -/
def application : Schema :=
  (Schema.record ["name", "provision"]
    [("name", Schema.text.described "Application name, unique within the Operation"),
      ("provision", job.described "Job that brings the application up"),
      ("teardown", job.nullable.described "Job that tears the application down")]).described
    "One application inside an Operation"

/-- The schema of a template. -/
def template : Schema :=
  .record []
    [("applications",
      ((Schema.list application).defaultingTo (.array [])).described
        "Applications provisioned by this Operation")]

/-- The schema of the duration text of a pool. -/
def keepAliveDuration : Schema :=
  Schema.text.described "Idle TTL for each warm entry (Go-style duration, e.g. \"30m\")"

/-- The schema of the size of a cache to be made. -/
def cacheSizing : Schema :=
  .record []
    [("keepAliveCount", Schema.count.nullable.described "Target pool size"),
      ("keepAliveDuration", keepAliveDuration.nullable)]

/-- The schema of a requirement's specification. -/
def requirementSpec : Schema :=
  (Schema.record ["template"]
    [("template", template.described "Template of the Operation this Requirement needs"),
      ("enableCache",
        (Schema.flag.defaultingTo (.bool false)).described
          "Try to satisfy the Requirement from a Cache pool"),
      ("cacheSpec",
        cacheSizing.nullable.described
          "Sizing hints for the Cache created on first use")]).described
    "User intent for a provisioned Operation"

/-- The schema of a condition. -/
def condition : Schema :=
  (Schema.record ["lastTransitionTime", "message", "reason", "status", "type"]
    [("type", Schema.text.described "Type of condition (e.g., CacheCRFound, OperationReady)"),
      ("status",
        (Schema.choice (ConditionStatus.names.map Prod.fst)).described
          "Status of the condition (True, False, Unknown)"),
      ("reason", Schema.text.described "Machine-readable reason for the condition"),
      ("message", Schema.text.described "Human-readable message"),
      ("lastTransitionTime",
        Schema.instant.described "Last time the condition's status changed")]).described
    ("Kubernetes-style condition for status reporting\n\nConditions are unique by `type_` " ++
      "within a status; see [`crate::conditions`] for the set semantics.")

/-- The schema of a requirement's status. -/
def requirementStatus : Schema :=
  (Schema.record []
    [("phase",
        ((Schema.choice (RequirementPhase.names.map Prod.fst)).defaultingTo
          (.string RequirementPhase.initial.name)).described "Current phase"),
      ("cacheKey",
        Schema.text.nullable.described
          "Content hash of `spec.template`, set once when caching is enabled"),
      ("operationName",
        Schema.text.nullable.described
          ("Operation currently satisfying this Requirement. Serialized as `null` when unbound " ++
            "so a status merge patch clears it.")),
      ("conditions",
        ((Schema.list condition).defaultingTo (.array [])).described
          "Typed assertions about progress, unique by type"),
      ("observedGeneration",
        (Schema.integer "int64").nullable.described
          "Generation last processed by the reconciler")]).described
    "Status of a Requirement, written only by the Requirement reconciler"

/-- The schema of a cache's specification. -/
def cacheSpec : Schema :=
  (Schema.record ["keepAliveCount", "keepAliveDuration", "template"]
    [("template", template.described "Template every pooled Operation is built from"),
      ("keepAliveCount", Schema.count.described "Target number of warm Operations"),
      ("keepAliveDuration", keepAliveDuration)]).described
    "Warm pool of prebuilt Operations for a single template"

/-- The schema of a cache's status. -/
def cacheStatus : Schema :=
  (Schema.record []
    [("cacheKey", Schema.text.nullable.described "Echo of the key this Cache serves"),
      ("keepAliveCount",
        (Schema.count.defaultingTo (Json.ofNat 0)).described "Current pool size"),
      ("operations",
        ((Schema.list .text).defaultingTo (.array [])).described
          "Names of the Operations currently in the pool")]).described
    "Status of a Cache, owned by the Cache controller"

/-- The schema of an operation's specification. -/
def operationSpec : Schema :=
  template.described "A provisioned unit of work made of Applications"

/-- The schema of an operation's status. -/
def operationStatus : Schema :=
  (Schema.record []
    [("phase",
        ((Schema.choice (OperationPhase.names.map Prod.fst)).defaultingTo
          (.string OperationPhase.pending.name)).described "Current phase"),
      ("ownerTransferable",
        (Schema.flag.defaultingTo (.bool false)).described
          "True iff the Operation sits in a Cache pool and may be acquired"),
      ("readyTime",
        Schema.instant.nullable.described
          "When the Operation was first observed Ready")]).described
    "Status of an Operation, owned by the Operation controller"

/-! ### Definitions -/

/-- A column in a listing. -/
structure Column where
  name : String
  /-- The type of what is shown. -/
  type : String
  /-- Where it is found. -/
  path : String
deriving DecidableEq, Repr

/-- The column that shows the age. -/
def ageColumn : Column := ⟨"Age", "date", ".metadata.creationTimestamp"⟩

/-- What an API server has to be told about a kind. -/
structure Definition where
  kind : Kind
  singular : String
  shortNames : List String
  /-- What the schema of the whole object says it is made from. -/
  specType : String
  columns : List Column
  spec : Schema
  status : Schema
deriving DecidableEq, Repr

namespace Definition

/-- The definition of requirements. -/
def requirement : Definition where
  kind := .requirement
  singular := "requirement"
  shortNames := ["req"]
  specType := "RequirementSpec"
  columns :=
    [⟨"Phase", "string", ".status.phase"⟩, ⟨"Operation", "string", ".status.operationName"⟩,
      ageColumn]
  spec := requirementSpec
  status := requirementStatus

/-- The definition of caches. -/
def cache : Definition where
  kind := .cache
  singular := "cache"
  shortNames := []
  specType := "CacheSpec"
  columns :=
    [⟨"Key", "string", ".status.cacheKey"⟩, ⟨"KeepAlive", "integer", ".spec.keepAliveCount"⟩,
      ageColumn]
  spec := cacheSpec
  status := cacheStatus

/-- The definition of operations. -/
def operation : Definition where
  kind := .operation
  singular := "operation"
  shortNames := ["op"]
  specType := "OperationSpec"
  columns :=
    [⟨"Phase", "string", ".status.phase"⟩,
      ⟨"Transferable", "boolean", ".status.ownerTransferable"⟩, ageColumn]
  spec := operationSpec
  status := operationStatus

/-- All definitions, in the order in which they are installed. -/
def all : List Definition := [requirement, cache, operation]

/-- The name of a definition: the collection in its group. -/
def name (d : Definition) : String := d.kind.plural ++ "." ++ apiGroup

/-- A column as JSON. -/
def encodeColumn (c : Column) : Json :=
  .object
    [Json.stringField "name" c.name, Json.stringField "type" c.type,
      Json.stringField "jsonPath" c.path]

/-- The schema of a whole object. -/
def objectSchema (d : Definition) : Schema :=
  ((Schema.record ["spec"] [("spec", d.spec), ("status", d.status.nullable)]).described
    ("Auto-generated derived type for " ++ d.specType ++ " via `CustomResource`")).adding
    "title" (.string d.kind.name)

/-- The one version of a kind. -/
def encodeVersion (d : Definition) : Json :=
  .object
    [("additionalPrinterColumns", .array (d.columns.map encodeColumn)),
      Json.stringField "name" apiVersionName,
      ("schema", .object [("openAPIV3Schema", d.objectSchema.encode)]),
      ("served", .bool true), ("storage", .bool true),
      ("subresources", .object [("status", .object [])])]

/-- The names of a kind. -/
def encodeNames (d : Definition) : Json :=
  .object
    [("categories", .array []), Json.stringField "kind" d.kind.name,
      Json.stringField "plural" d.kind.plural, ("shortNames", Json.ofStrings d.shortNames),
      Json.stringField "singular" d.singular]

/-- The API version of definitions. -/
def definitionVersion : String := "apiextensions.k8s.io/v1"

/-- The kind of definitions. -/
def definitionKind : String := "CustomResourceDefinition"

/-- A definition as an object, its fields in order of their names. -/
def encode (d : Definition) : Json :=
  Json.sorted <| .object
    [Json.stringField "apiVersion" definitionVersion, Json.stringField "kind" definitionKind,
      ("metadata", .object [Json.stringField "name" d.name]),
      ("spec", .object
        [Json.stringField "group" apiGroup, ("names", d.encodeNames),
          Json.stringField "scope" "Namespaced", ("versions", .array [d.encodeVersion])])]

end Definition

end WarmPool.Manifest
