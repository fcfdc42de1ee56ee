import WarmPool.Backoff
import WarmPool.Suffix
import WarmPool.Timestamp

/-!
# Settings

What a reconcile is given besides its requirement: the settings of the reconciler, and the occasion,
which holds the instant and the random part of a name. Its result is an `Action`: when to look at
the requirement again.
-/

namespace WarmPool.Reconcile

/-- The settings of the reconciler. -/
structure Settings where
  /-- How long to wait while a pool has nothing to claim. -/
  cachePoll : Duration := .ofSeconds 10
  /-- How long to wait while the bound operation is not ready. -/
  readinessPoll : Duration := .ofSeconds 5
  /-- How long to wait once the bound operation is ready. -/
  readyResync : Duration := .ofSeconds 600
  /-- The longest a reconcile may take. -/
  timeout : Duration := .ofSeconds 30
  /-- The size of the pool of a cache made without one. -/
  defaultKeepAliveCount : UInt32 := 1
  /-- The duration text of a cache made without one. -/
  defaultKeepAliveDuration : String := "30m"
  /-- The delays after failed reconciles. -/
  backoff : Backoff := {}
deriving DecidableEq, Repr, Inhabited

/-- When to look at a requirement again. -/
inductive Action where
  /-- Once it changes. -/
  | awaitChange
  /-- After this long. -/
  | requeue (after : Duration)
deriving DecidableEq, Repr, Inhabited

/-- The number of random characters at the end of the name of an operation. -/
def suffixLength : Nat := 5

/-- When a reconcile takes place, and what it draws. -/
structure Occasion where
  now : Timestamp
  suffix : Vector Suffix.Draw suffixLength
deriving Repr

/-- The random part of a name. -/
def Occasion.suffixText (o : Occasion) : String := Suffix.text o.suffix.toList

end WarmPool.Reconcile
