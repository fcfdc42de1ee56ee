import WarmPool.Number.Binary64
import WarmPool.Duration

/-!
# Backoff

How long to wait before an attempt is repeated. The delay before retry `n` is the initial delay
times the multiplier to the power `n - 1`, in binary64 seconds, and never above the greatest delay.
`Backoff.attemptsFrom` tries an action until it succeeds or the attempts are used up; what the
attempts bring is left open there, and `Backoff.retry` has it laid down in advance.
-/

namespace WarmPool

/-- The seconds of a duration: the whole seconds and the rest are rounded, and then their sum. -/
def Duration.toExtended (d : Duration) : Extended :=
  match Binary64.ofRatio? false d.seconds 1, Binary64.ofRatio? false d.subsecond nanosPerSecond with
  | some whole, some rest =>
    let (m, p) := whole.magnitude
    let (n, q) := rest.magnitude
    Extended.ofRatio false (m * q + n * p) (p * q)
  | _, _ => .undefined

/--
The duration nearest to this many seconds, a tie going to the even count of nanoseconds. Numbers
below zero and numbers from `2 ^ 64` on have none.
-/
def Duration.ofBinary64? (x : Binary64) : Option Duration :=
  if x.isBelowZero then none
  else
    let (num, den) := x.magnitude
    ofNanos? (roundQuotient (num * nanosPerSecond) den)

/-- A schedule of delays between attempts. -/
structure Backoff where
  /-- The greatest number of attempts; zero stands for no limit. -/
  maxAttempts : Nat := 0
  initialDelay : Duration := .ofMillis 5
  maxDelay : Duration := .ofSeconds 1000
  multiplier : Extended := .finite .two
  /-- Whether a delay is multiplied with a random factor of at least 0.5 and below 1.5. -/
  jitter : Bool := true
deriving DecidableEq, Repr

namespace Backoff

instance : Inhabited Backoff := ⟨{}⟩

/-- The greatest power of the multiplier. -/
def maxExponent : Nat := 63

/-- A delay of this many seconds, at most the greatest one; numbers below zero give none. -/
def capped? (b : Backoff) : Extended → Option Duration
  | .finite x =>
    match b.maxDelay.toExtended with
    | .finite limit => if limit ≤ x then some b.maxDelay else Duration.ofBinary64? x
    | _ => some b.maxDelay
  | _ => some b.maxDelay

/--
The delay before retry `attempt`, counted from one. A multiplier below zero leaves some retries
without a delay.
-/
def baseDelay? (b : Backoff) (attempt : Nat) : Option Duration :=
  let exponent := min (attempt - 1) maxExponent
  b.capped? (b.initialDelay.toExtended * b.multiplier.pow exponent)

/-- The random bits from which a factor is made. -/
abbrev Draw := BitVec 52

/-- The random factor of a draw: 0.5 and as many steps of `2 ^ -52` as the bits say. -/
def jitterFactor (draw : Draw) : Extended :=
  Extended.ofRatio false (2 ^ (51 : Nat) + draw.toNat) (2 ^ (52 : Nat))

/--
The delay times the factor of a draw, at most the greatest delay. The product has to be a duration
itself, so from `2 ^ 64` seconds on there is none.
-/
def jittered? (b : Backoff) (base : Duration) (draw : Draw) : Option Duration :=
  match base.toExtended * jitterFactor draw with
  | .finite x => (Duration.ofBinary64? x).map fun d => if b.maxDelay < d then b.maxDelay else d
  | _ => none

/-- The delay before retry `attempt`, with the factor of a draw if there is jitter. -/
def delay? (b : Backoff) (attempt : Nat) (draw : Draw) : Option Duration := do
  let base ← b.baseDelay? attempt
  if b.jitter then b.jittered? base draw else some base

/-- Whether a delay lies between half and one and a half times the base, within a nanosecond. -/
def nearBase (base delay : Duration) : Bool :=
  base.nanos ≤ 2 * delay.nanos + 2 && 2 * delay.nanos ≤ 3 * base.nanos + 2

/-! ### Repeated attempts -/

/-- The greatest number that an attempt can have, as attempts are counted in 32 bits. -/
def lastNumber : Nat := 2 ^ (32 : Nat) - 1

/-- What to do after a failed attempt. -/
inductive Verdict where
  | giveUp
  | wait (delay : Duration)
  /-- The schedule has no delay here. -/
  | noDelay
deriving DecidableEq, Repr

/-- What to do after the failure of attempt `attempt`. -/
def verdict (b : Backoff) (attempt : Nat) (draw : Draw) : Verdict :=
  if 0 < b.maxAttempts ∧ b.maxAttempts ≤ attempt then .giveUp
  else
    match b.delay? attempt draw with
    | some delay => .wait delay
    | none => .noDelay

/-- Attempts and the delays between them, apart from who makes the attempts. -/
inductive Attempts (ε α : Type) where
  | done (result : Except ε α)
  /-- After a failure there is no delay, or no number for the next attempt. -/
  | stuck (error : ε)
  | sleep (delay : Duration) (next : Attempts ε α)
  | attempt (next : Except ε α → Attempts ε α)

/--
Attempts from number `attempt` on, given the draw for the delay after each. Nothing is tried after a
success.
-/
def attemptsFrom (b : Backoff) (draws : Nat → Draw) (attempt : Nat) : Attempts ε α :=
  .attempt fun
    | .ok value => .done (.ok value)
    | .error e =>
      match b.verdict attempt (draws attempt) with
      | .giveUp => .done (.error e)
      | .noDelay => .stuck e
      | .wait delay =>
        .sleep delay <|
          if attempt < lastNumber then b.attemptsFrom draws (attempt + 1) else .stuck e
termination_by lastNumber - attempt

/-- How a run of attempts ended. -/
inductive Ending (ε α : Type) where
  | succeeded (value : α)
  /-- The last attempt failed like this. -/
  | gaveUp (error : ε)
  /-- There is no delay after the last attempt, or no number for a further one. -/
  | stuck
  /-- A further attempt is due. -/
  | unfinished
deriving DecidableEq, Repr

/-- The ending that a result stands for. -/
def Ending.ofResult : Except ε α → Ending ε α
  | .ok value => .succeeded value
  | .error e => .gaveUp e

/-- What is done in a run of attempts. -/
inductive Step where
  | attempt
  | sleep (delay : Duration)
deriving DecidableEq, Repr

/-- A run of attempts: what was done, in order, and the ending. -/
structure Run (ε α : Type) where
  steps : List Step
  ending : Ending ε α
deriving DecidableEq, Repr

/-- The instants of the attempts among some steps: a delay ends on a whole millisecond. -/
def instants (start : Nat) : (steps : List Step) → List Nat
  | [] => []
  | .attempt :: rest => start :: instants start rest
  | .sleep delay :: rest => instants (start + delay.timer.ceilMillis) rest

/-- The milliseconds from the first attempt of a run to each of its attempts. -/
def Run.instants (run : Run ε α) : List Nat := Backoff.instants 0 run.steps

/-- A run with some steps before it. -/
def Run.after (steps : List Step) (run : Run ε α) : Run ε α := ⟨steps ++ run.steps, run.ending⟩

/-- Makes attempts that bring what is laid down in advance. -/
def Attempts.run : (outcomes : List (Except ε α)) → Attempts ε α → Run ε α
  | _, .done result => ⟨[], .ofResult result⟩
  | _, .stuck _ => ⟨[], .stuck⟩
  | outcomes, .sleep delay next => (next.run outcomes).after [.sleep delay]
  | [], .attempt _ => ⟨[], .unfinished⟩
  | outcome :: rest, .attempt next => ((next outcome).run rest).after [.attempt]

/-- Attempts until one succeeds or they are used up, given what each of them brings. -/
def retry (b : Backoff) (draws : Nat → Draw) (outcomes : List (Except ε α)) : Run ε α :=
  (b.attemptsFrom draws 1).run outcomes

end Backoff

end WarmPool
