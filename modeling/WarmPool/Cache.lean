import WarmPool.Resource
import WarmPool.Template

/-!
# Caches

A cache is a pool of operations kept warm for one template. Its name is made from the key of the
template, so requirements with the same template find the same cache.
-/

namespace WarmPool

/-- What a cache keeps warm, how many and for how long. -/
structure CacheSpec where
  template : Template
  keepAliveCount : UInt32
  /-- A duration text. -/
  keepAliveDuration : String
deriving DecidableEq, Repr, Inhabited

namespace CacheSpec

/-- The fields in order. -/
def fieldNames : List String := ["template", "keepAliveCount", "keepAliveDuration"]

/-- Reads a specification. -/
def decode? (v : Json) : Option CacheSpec := do
  let fields ← v.recordFields? fieldNames
  pure
    { template := ← Json.required? Template.decode? "template" fields
      keepAliveCount := ← Json.required? Json.toUInt32? "keepAliveCount" fields
      keepAliveDuration := ← Json.required? Json.toString? "keepAliveDuration" fields }

/-- Writes a specification. -/
def encode (s : CacheSpec) : Json :=
  .object
    [("template", s.template.encode), ("keepAliveCount", Json.ofUInt32 s.keepAliveCount),
      Json.stringField "keepAliveDuration" s.keepAliveDuration]

end CacheSpec

/-- The state of a pool. -/
structure CacheStatus where
  /-- The key that the cache serves. -/
  key : Option String := none
  keepAliveCount : UInt32 := 0
  /-- The names of the operations in the pool. -/
  operations : List String := []
deriving DecidableEq, Repr, Inhabited

namespace CacheStatus

/-- The fields in order. -/
def fieldNames : List String := ["cacheKey", "keepAliveCount", "operations"]

/-- Reads a status. -/
def decode? (v : Json) : Option CacheStatus := do
  let fields ← v.recordFields? fieldNames
  pure
    { key := ← Json.optional? Json.toString? "cacheKey" fields
      keepAliveCount := ← Json.defaulted? 0 Json.toUInt32? "keepAliveCount" fields
      operations := ← Json.defaulted? [] Json.toStrings? "operations" fields }

/-- Writes a status. -/
def encode (s : CacheStatus) : Json :=
  .object <|
    Json.optionalField "cacheKey" Json.string s.key ++
    [("keepAliveCount", Json.ofUInt32 s.keepAliveCount),
      ("operations", Json.ofStrings s.operations)]

end CacheStatus

/-- A pool of warm operations. -/
structure Cache where
  metadata : Metadata
  spec : CacheSpec
  status : Option CacheStatus := none
deriving DecidableEq, Repr, Inhabited

namespace Cache

/-- Reads a cache. -/
def decode? (v : Json) : Option Cache :=
  (Resource.decode? CacheSpec.decode? CacheStatus.decode? v).map fun (m, s, t) => ⟨m, s, t⟩

/-- Writes a cache. -/
def encode (c : Cache) : Json :=
  Resource.encode .cache c.metadata c.spec.encode (c.status.map CacheStatus.encode)

/-- The name to show and to ask for. -/
def name (c : Cache) : String := c.metadata.anyName

/-- What the name of a cache starts with; the key follows. -/
def nameStart : List Char := ['c', 'a', 'c', 'h', 'e', '-']

/-- The name of the cache for a key. -/
def nameForKey (key : String) : String := String.ofList nameStart ++ key

/-- The key in the name of a cache. -/
def keyInName? (name : String) : Option String :=
  if nameStart.isPrefixOf name.toList then
    some (String.ofList (name.toList.drop nameStart.length))
  else none

/-- The names of the operations in the pool. -/
def pool (c : Cache) : List String := (c.status.map (·.operations)).getD []

end Cache

end WarmPool
