import WarmPool.Cache
import WarmPool.Event
import WarmPool.Measure
import WarmPool.Operation
import WarmPool.Requirement

/-!
# Plans

What one reconcile does, apart from who answers. A `Plan` is a tree: a `Call` in a namespace of the
cluster with a continuation for every reply it may get, an event or a measure on the way, and at
each leaf the result. Running it against a cluster, an API server or any replies whatever is the
business of an interpreter.
-/

namespace WarmPool.Reconcile

/-- A request to the cluster; what it names is in the namespace in which it is made. -/
inductive Call where
  /-- Writes the status of a requirement. -/
  | patchStatus (requirement : String) (status : RequirementStatus)
  /-- Adds a finalizer to a requirement that lacks it. -/
  | addFinalizer (requirement finalizer : String)
  /-- Takes a finalizer from a requirement that has it. -/
  | removeFinalizer (requirement finalizer : String)
  | getCache (name : String)
  /-- Makes a cache unless there is one; the reply tells whether it was made. -/
  | createCache (cache : Cache)
  | getOperation (name : String)
  /-- Lists the operations labelled with a key. -/
  | listOperations (key : String)
  /-- Makes an operation; the reply is the operation as stored. -/
  | createOperation (operation : Operation)
  /-- Replaces the owners of an operation, provided its resource version is still this one. -/
  | patchOwners (operation version : String) (owners : List OwnerReference)
deriving DecidableEq, Repr

namespace Call

/-- What a successful call brings. -/
abbrev Reply : Call → Type
  | patchStatus .. => Unit
  | addFinalizer .. => Unit
  | removeFinalizer .. => Unit
  | getCache _ => Option Cache
  | createCache _ => Bool
  | getOperation _ => Option Operation
  | listOperations _ => List Operation
  | createOperation _ => Operation
  | patchOwners .. => Unit

/-- Whether a call may change the cluster. -/
def isMutation : Call → Bool
  | patchStatus .. | addFinalizer .. | removeFinalizer .. => true
  | createCache _ | createOperation _ | patchOwners .. => true
  | getCache _ | getOperation _ | listOperations _ => false

end Call

/-- What a reconcile does and what comes of it. -/
inductive Plan (α : Type) where
  | done (result : Except Error α)
  | call (namespaceName : String) (call : Call) (next : Except Error call.Reply → Plan α)
  | event (event : Event) (next : Plan α)
  | measure (measure : Measure) (next : Plan α)

namespace Plan

/-- Goes on with the value of a plan; a plan that failed stays as it is. -/
def bind : Plan α → (α → Plan β) → Plan β
  | done (.ok a), f => f a
  | done (.error e), _ => done (.error e)
  | call n c next, f => call n c fun reply => (next reply).bind f
  | event e next, f => event e (next.bind f)
  | measure m next, f => measure m (next.bind f)

instance : Monad Plan where
  pure a := done (.ok a)
  bind := bind

/-- Fails. -/
def fail (e : Error) : Plan α := done (.error e)

/-- Makes a call in a namespace; its failure is the failure of the plan. -/
def ask (namespaceName : String) (c : Call) : Plan c.Reply := call namespaceName c done

/-- Makes a call in a namespace and hands on its failure as well. -/
def attempt (namespaceName : String) (c : Call) : Plan (Except Error c.Reply) :=
  call namespaceName c fun reply => done (.ok reply)

/-- Tells of an event. -/
def tell (e : Event) : Plan Unit := event e (pure ())

/-- Counts something. -/
def count (m : Measure) : Plan Unit := measure m (pure ())

/-- The value, or a failure where there is none. -/
def orFail (e : Error) : Option α → Plan α
  | some a => pure a
  | none => fail e

end Plan

end WarmPool.Reconcile
