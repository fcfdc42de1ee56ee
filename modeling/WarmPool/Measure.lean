/-!
# Measures

What is counted: looks into a cache, lost claims, released operations, and reconciles by result and
by kind of error. `tally` sums a list of counts up by instrument and dimension.
-/

namespace WarmPool

/-- What came of looking for a warm operation. -/
inductive Lookup where
  /-- One was claimed. -/
  | hit
  /-- The requirement goes without the pool. -/
  | miss
  /-- There is none to claim. -/
  | empty
deriving DecidableEq, Repr

/-- The name of an outcome. -/
def Lookup.name : Lookup → String
  | hit => "hit"
  | miss => "miss"
  | empty => "empty"

/-- One count. -/
inductive Measure where
  | lookup (outcome : Lookup)
  /-- A claim met a change by someone else. -/
  | claimConflict
  | released
  /-- A reconcile came to its end. -/
  | reconciled (success : Bool)
  /-- A reconcile failed with an error of this kind. -/
  | failed (label : String)
deriving DecidableEq, Repr

namespace Measure

/-- The instrument that counts. -/
def instrument : Measure → String
  | lookup _ => "devinfra_cache_lookups_total"
  | claimConflict => "devinfra_cache_claim_conflicts_total"
  | released => "devinfra_operations_released_total"
  | reconciled _ => "devinfra_requirement_reconcile_duration_seconds"
  | failed _ => "devinfra_requirement_reconcile_errors_total"

/-- The dimension under which the instrument counts, empty if it has none. -/
def dimension : Measure → String
  | lookup outcome => "result=" ++ outcome.name
  | claimConflict => ""
  | released => ""
  | reconciled success => if success then "result=success" else "result=error"
  | failed label => "error_type=" ++ label

end Measure

/-- Adds one to the count of a key, a new key coming last. -/
def countUp [DecidableEq κ] (key : κ) : List (κ × Nat) → List (κ × Nat)
  | [] => [(key, 1)]
  | (k, n) :: rest => if k = key then (k, n + 1) :: rest else (k, n) :: countUp key rest

/-- How often each pair of instrument and dimension was counted. -/
def tally (measures : List Measure) : List ((String × String) × Nat) :=
  measures.foldl (fun counts m => countUp (m.instrument, m.dimension) counts) []

end WarmPool
