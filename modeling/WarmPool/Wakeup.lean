import WarmPool.Operation
import WarmPool.Cache
import WarmPool.Requirement

/-!
# Wake-ups

Which requirements to look at again when an operation or a cache changes.
-/

namespace WarmPool.Wakeup

/-- A requirement by namespace and name. -/
structure Target where
  namespaceName : Option String
  name : String
deriving DecidableEq, Repr

/-- The requirements that an operation refers to as owners. -/
def ofOperation (op : Operation) : List Target :=
  ((op.metadata.ownersOfKind Kind.requirement.name).filter fun r => r.apiVersion = apiVersion).map
    fun r => ⟨op.metadata.namespaceName, r.name⟩

/-- The key that a cache serves: as its status says, or else as in its name. -/
def cacheKey? (cache : Cache) : Option String :=
  (cache.status.bind (·.key)) <|> Cache.keyInName? cache.name

/-- Whether a requirement waits for the pool of the cache with this namespace and key. -/
def waitsFor (namespaceName : Option String) (key : String) (r : Requirement) : Bool :=
  r.metadata.namespaceName = namespaceName && r.phase = .cacheChecking &&
    r.status.bind (·.key) = some key

/-- A stored requirement by namespace and name; one without a name cannot be told. -/
def target? (r : Requirement) : Option Target :=
  r.metadata.name.map fun name => ⟨r.metadata.namespaceName, name⟩

/--
The requirements that wait for the pool of a cache, in the order given; none if one of them cannot
be told.
-/
def ofCache? (cache : Cache) (requirements : List Requirement) : Option (List Target) :=
  match cacheKey? cache with
  | none => some []
  | some key =>
    (requirements.filter (waitsFor cache.metadata.namespaceName key)).mapM target?

end WarmPool.Wakeup
