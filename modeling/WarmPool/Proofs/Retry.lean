import Mathlib.Data.List.Basic
import Mathlib.Data.Nat.Find
import WarmPool.Proofs.Backoff

/-!
# How a run of attempts ends

The first success ends a run, and so does the failure of the last attempt that there may be; `Due`
says so of the outcomes alone. A run makes exactly the attempts that are due, with the delay of each
attempt but the last one after it (`Backoff.retry_as_due`), as long as their numbers have 32 bits.

The number of the next attempt is all that is carried from one attempt to the next, so failures are
passed one by one (`Backoff.run_attemptsFrom_wait`) and then as many as there are
(`Backoff.run_attemptsFrom_passed`). After them comes the attempt that ends the run. A run ends
before only where there is no delay, as where it would be below zero (`Backoff.stuck_alternating`).
-/

namespace WarmPool.Backoff

variable {ε α : Type} {b : Backoff} {draws : Nat → Draw} {outcomes : Nat → Except ε α}
  {delay : Nat → Duration}

/-! ### What is due -/

/-- The outcomes of the first attempts; the first attempt has number one. -/
def firstOutcomes (outcomes : Nat → Except ε α) (count : Nat) : List (Except ε α) :=
  (List.range' 1 count).map outcomes

/-- Attempts from number `start` on, each with its delay after it. -/
def delayedAttempts (delay : Nat → Duration) (start count : Nat) : List Step :=
  (List.range' start count).flatMap fun i => [.attempt, .sleep (delay i)]

/-- So many attempts, each but the last one with its delay after it. -/
def course (delay : Nat → Duration) (count : Nat) : List Step :=
  delayedAttempts delay 1 (count - 1) ++ [.attempt]

/--
How many attempts are due, and the ending: as many as it takes to the first success or as there may
be, whichever is less. A limit of zero is none.
-/
inductive Due (limit : Nat) (outcomes : Nat → Except ε α) : (count : Nat) → Ending ε α → Prop where
  | success {count : Nat} {value : α} (hpos : 1 ≤ count) (hlimit : limit = 0 ∨ count ≤ limit)
      (hbefore : ∀ i, 1 ≤ i → i < count → ∃ e, outcomes i = .error e)
      (hlast : outcomes count = .ok value) : Due limit outcomes count (.succeeded value)
  | failure {e : ε} (hpos : 1 ≤ limit)
      (hbefore : ∀ i, 1 ≤ i → i < limit → ∃ e, outcomes i = .error e)
      (hlast : outcomes limit = .error e) : Due limit outcomes limit (.gaveUp e)

namespace Due

variable {limit count : Nat} {ending : Ending ε α}

theorem pos (h : Due limit outcomes count ending) : 1 ≤ count := by
  cases h with
  | success hpos => exact hpos
  | failure hpos => exact hpos

theorem failed_before (h : Due limit outcomes count ending) {i : Nat} (hi : 1 ≤ i)
    (hlt : i < count) : ∃ e, outcomes i = .error e := by
  cases h with
  | success _ _ hbefore => exact hbefore i hi hlt
  | failure _ hbefore => exact hbefore i hi hlt

/-- Before the last attempt that is due the attempts are not used up. -/
theorem unused_before (h : Due limit outcomes count ending) {i : Nat} (hlt : i < count) :
    limit = 0 ∨ i < limit := by
  cases h with
  | success _ hlimit => exact hlimit.imp_right (Nat.lt_of_lt_of_le hlt)
  | failure => exact .inr hlt

end Due

/-- An attempt that succeeds, or the last one that there may be, is the latest that can be due. -/
theorem exists_due {limit k : Nat} (hk : 1 ≤ k) (h : k = limit ∨ ∃ value, outcomes k = .ok value) :
    ∃ count ending, Due limit outcomes count ending ∧ count ≤ k := by
  classical
  -- The least number of such an attempt is the one looked for.
  have hexists : ∃ n, 1 ≤ n ∧ (n = limit ∨ ∃ value, outcomes n = .ok value) := ⟨k, hk, h⟩
  obtain ⟨hpos, hends⟩ := Nat.find_spec hexists
  have hle : Nat.find hexists ≤ k := Nat.find_min' hexists ⟨hk, h⟩
  have hlimit : 1 ≤ limit → Nat.find hexists ≤ limit := fun hone =>
    Nat.find_min' hexists ⟨hone, .inl rfl⟩
  have hbefore : ∀ i, 1 ≤ i → i < Nat.find hexists → ∃ e, outcomes i = .error e := by
    intro i hi hlt
    have hnot := Nat.find_min hexists hlt
    cases houtcome : outcomes i with
    | ok value => exact absurd ⟨hi, .inr ⟨value, houtcome⟩⟩ hnot
    | error e => exact ⟨e, rfl⟩
  generalize Nat.find hexists = count at hpos hends hle hlimit hbefore
  cases hlast : outcomes count with
  | ok value => exact ⟨count, _, .success hpos (by omega) hbefore hlast, hle⟩
  | error e =>
    obtain rfl : count = limit := hends.resolve_right fun ⟨value, hvalue⟩ => by
      rw [hlast] at hvalue
      cases hvalue
    exact ⟨count, _, .failure hpos hbefore hlast, hle⟩

/-! ### Steps -/

theorem delayedAttempts_succ (delay : Nat → Duration) (start count : Nat) :
    delayedAttempts delay start (count + 1) =
      [.attempt, .sleep (delay start)] ++ delayedAttempts delay (start + 1) count := by
  unfold delayedAttempts
  rw [List.range'_succ, List.flatMap_cons]

theorem count_attempt_delayedAttempts (delay : Nat → Duration) (start count : Nat) :
    (delayedAttempts delay start count).count .attempt = count := by
  induction count generalizing start with
  | zero => rfl
  | succ count ih =>
    rw [delayedAttempts_succ, List.count_append, ih]
    exact Nat.add_comm 1 count

theorem count_attempt_course (delay : Nat → Duration) {count : Nat} (h : 1 ≤ count) :
    (course delay count).count .attempt = count := by
  unfold course
  rw [List.count_append, count_attempt_delayedAttempts]
  exact Nat.sub_add_cancel h

theorem Run.after_append (first second : List Step) (run : Run ε α) :
    run.after (first ++ second) = (run.after second).after first := by
  unfold Run.after
  rw [List.append_assoc]

/-! ### One attempt -/

theorem verdict_of_used {attempt : Nat} (hlimit : 0 < b.maxAttempts)
    (hused : b.maxAttempts ≤ attempt) (draw : Draw) : b.verdict attempt draw = .giveUp :=
  if_pos ⟨hlimit, hused⟩

theorem verdict_of_delay {attempt : Nat} {draw : Draw} {d : Duration}
    (hunused : b.maxAttempts = 0 ∨ attempt < b.maxAttempts)
    (hdelay : b.delay? attempt draw = some d) : b.verdict attempt draw = .wait d := by
  unfold verdict
  rw [if_neg (by omega), hdelay]

theorem verdict_of_noDelay {attempt : Nat} {draw : Draw}
    (hunused : b.maxAttempts = 0 ∨ attempt < b.maxAttempts)
    (hdelay : b.delay? attempt draw = none) : b.verdict attempt draw = .noDelay := by
  unfold verdict
  rw [if_neg (by omega), hdelay]

section

variable {attempt : Nat} {value : α} {e : ε} {rest : List (Except ε α)}

theorem run_attemptsFrom_ok :
    (b.attemptsFrom draws attempt).run (.ok value :: rest) = ⟨[.attempt], .succeeded value⟩ := by
  rw [attemptsFrom]
  rfl

/-- After a failure the verdict says how the run goes on. -/
theorem run_attemptsFrom_error :
    (b.attemptsFrom draws attempt).run (.error e :: rest) =
      match b.verdict attempt (draws attempt) with
      | .giveUp => ⟨[.attempt], .gaveUp e⟩
      | .noDelay => ⟨[.attempt], .stuck⟩
      | .wait d =>
        ((if attempt < lastNumber then b.attemptsFrom draws (attempt + 1) else .stuck e).run
          rest).after [.attempt, .sleep d] := by
  rw [attemptsFrom]
  simp only [Attempts.run]
  cases b.verdict attempt (draws attempt) with
  | giveUp => rfl
  | noDelay => rfl
  | wait d => rfl

theorem run_attemptsFrom_used (hlimit : 0 < b.maxAttempts) (hused : b.maxAttempts ≤ attempt) :
    (b.attemptsFrom draws attempt).run (.error e :: rest) = ⟨[.attempt], .gaveUp e⟩ := by
  rw [run_attemptsFrom_error, verdict_of_used hlimit hused]

theorem run_attemptsFrom_noDelay (hunused : b.maxAttempts = 0 ∨ attempt < b.maxAttempts)
    (hdelay : b.delay? attempt (draws attempt) = none) :
    (b.attemptsFrom draws attempt).run (.error e :: rest) = ⟨[.attempt], .stuck⟩ := by
  rw [run_attemptsFrom_error, verdict_of_noDelay hunused hdelay]

theorem run_attemptsFrom_wait {d : Duration} (hnumber : attempt < lastNumber)
    (hunused : b.maxAttempts = 0 ∨ attempt < b.maxAttempts)
    (hdelay : b.delay? attempt (draws attempt) = some d) :
    (b.attemptsFrom draws attempt).run (.error e :: rest) =
      ((b.attemptsFrom draws (attempt + 1)).run rest).after [.attempt, .sleep d] := by
  rw [run_attemptsFrom_error, verdict_of_delay hunused hdelay]
  dsimp only
  rw [if_pos hnumber]

end

/-! ### Many attempts -/

/-- An attempt after which there is another one. -/
structure Passed (b : Backoff) (draws : Nat → Draw) (outcomes : Nat → Except ε α)
    (delay : Nat → Duration) (i : Nat) : Prop where
  failed : ∃ e, outcomes i = .error e
  unused : b.maxAttempts = 0 ∨ i < b.maxAttempts
  delayed : b.delay? i (draws i) = some (delay i)

theorem run_attemptsFrom_passed {start count : Nat} (hnumber : start + count ≤ lastNumber)
    (h : ∀ i, start ≤ i → i < start + count → Passed b draws outcomes delay i)
    (rest : List (Except ε α)) :
    (b.attemptsFrom draws start).run ((List.range' start count).map outcomes ++ rest) =
      ((b.attemptsFrom draws (start + count)).run rest).after
        (delayedAttempts delay start count) := by
  induction count generalizing start with
  | zero => rfl
  | succ count ih =>
    obtain ⟨⟨e, he⟩, hunused, hdelay⟩ := h start le_rfl (by omega)
    have hnext := @ih (start + 1) (by omega) fun i hi hlt => h i (by omega) (by omega)
    rw [List.range'_succ, List.map_cons, List.cons_append, he,
      run_attemptsFrom_wait (by omega) hunused hdelay, hnext, delayedAttempts_succ,
      Run.after_append, Nat.succ_add_eq_add_succ]

/-- The outcomes before an attempt, its own and those after it. -/
theorem exists_firstOutcomes_eq (outcomes : Nat → Except ε α) {count known : Nat}
    (hpos : 1 ≤ count) (hknown : count ≤ known) :
    ∃ later, firstOutcomes outcomes known =
      (List.range' 1 (count - 1)).map outcomes ++ outcomes count :: later := by
  have hparts : List.range' 1 known =
      List.range' 1 (count - 1) ++ count :: List.range' (count + 1) (known - count) := by
    have hlength : known = (count - 1) + ((known - count) + 1) := by omega
    have hnumber : 1 + 1 * (count - 1) = count := by omega
    conv_lhs => rw [hlength, ← List.range'_append, hnumber, List.range'_succ]
  unfold firstOutcomes
  rw [hparts, List.map_append, List.map_cons]
  exact ⟨_, rfl⟩

/-- A run ends with the first attempt that is not passed. -/
theorem retry_of_last {count known : Nat} {ending : Ending ε α} (hpos : 1 ≤ count)
    (hnumber : count ≤ lastNumber) (hknown : count ≤ known)
    (hpassed : ∀ i, 1 ≤ i → i < count → Passed b draws outcomes delay i)
    (hlast : ∀ later, (b.attemptsFrom draws count).run (outcomes count :: later) =
      ⟨[.attempt], ending⟩) :
    b.retry draws (firstOutcomes outcomes known) = ⟨course delay count, ending⟩ := by
  obtain ⟨later, hlater⟩ := exists_firstOutcomes_eq outcomes hpos hknown
  have hcount : 1 + (count - 1) = count := by omega
  unfold retry
  rw [hlater, run_attemptsFrom_passed (by omega) (fun i hi hlt => hpassed i hi (by omega)), hcount,
    hlast]
  rfl

/-- With a delay after each attempt but the last, a run does what is due. -/
theorem retry_of_delays {count known : Nat} {ending : Ending ε α}
    (h : Due b.maxAttempts outcomes count ending) (hnumber : count ≤ lastNumber)
    (hknown : count ≤ known)
    (hdelay : ∀ i, 1 ≤ i → i < count → b.delay? i (draws i) = some (delay i)) :
    b.retry draws (firstOutcomes outcomes known) = ⟨course delay count, ending⟩ := by
  refine retry_of_last h.pos hnumber hknown (fun i hi hlt => ?_) (fun later => ?_)
  · exact ⟨h.failed_before hi hlt, h.unused_before hlt, hdelay i hi hlt⟩
  · cases h with
    | success _ _ _ hlast =>
      rw [hlast]
      exact run_attemptsFrom_ok
    | failure hpos _ hlast =>
      rw [hlast]
      exact run_attemptsFrom_used hpos le_rfl

/-- A run is stuck where an attempt that is not the last one has no delay. -/
theorem retry_of_noDelay {count known p : Nat} {ending : Ending ε α}
    (h : Due b.maxAttempts outcomes count ending) (hnumber : count ≤ lastNumber)
    (hknown : count ≤ known) (hp : 1 ≤ p) (hlt : p < count)
    (hdelay : ∀ i, 1 ≤ i → i < p → b.delay? i (draws i) = some (delay i))
    (hnone : b.delay? p (draws p) = none) :
    b.retry draws (firstOutcomes outcomes known) = ⟨course delay p, .stuck⟩ := by
  refine retry_of_last hp (by omega) (by omega) (fun i hi hip => ?_) (fun later => ?_)
  · have hi' : i < count := Nat.lt_trans hip hlt
    exact ⟨h.failed_before hi hi', h.unused_before hi', hdelay i hi hip⟩
  · obtain ⟨e, he⟩ := h.failed_before hp hlt
    rw [he]
    exact run_attemptsFrom_noDelay (h.unused_before hlt) hnone

/--
If there is a limit or some attempt succeeds, a number of attempts is due. With a delay after each
of them but the last, a run makes just these attempts, sleeps for the delay of each once, between it
and the next, and ends with the first success or, without one, the failure of the last attempt. If a
delay is missing, the run makes the attempts up to there and is stuck. Without jitter the delays are
those of the schedule, and none is missing unless the multiplier is below zero.
-/
theorem retry_as_due (b : Backoff) (draws : Nat → Draw) (outcomes : Nat → Except ε α) :
    (∀ k, 1 ≤ k → (k = b.maxAttempts ∨ ∃ value, outcomes k = .ok value) →
      ∃ count ending, Due b.maxAttempts outcomes count ending ∧ count ≤ k) ∧
    (∀ count ending, Due b.maxAttempts outcomes count ending → count ≤ lastNumber →
      ∀ (delay : Nat → Duration) (known : Nat), count ≤ known →
        ((∀ i, 1 ≤ i → i < count → b.delay? i (draws i) = some (delay i)) →
          b.retry draws (firstOutcomes outcomes known) = ⟨course delay count, ending⟩ ∧
            (course delay count).count .attempt = count) ∧
        ∀ p, 1 ≤ p → p < count →
          (∀ i, 1 ≤ i → i < p → b.delay? i (draws i) = some (delay i)) →
          b.delay? p (draws p) = none →
          b.retry draws (firstOutcomes outcomes known) = ⟨course delay p, .stuck⟩) ∧
    (b.jitter = false →
      (∀ i, b.delay? i (draws i) = b.baseDelay? i) ∧
      (b.multiplier.NotBelowZero → ∀ i, ∃ d, b.delay? i (draws i) = some d)) := by
  refine ⟨fun k hk h => exists_due hk h, ?_, fun hjitter => ?_⟩
  · intro count ending hdue hnumber delay known hknown
    refine ⟨fun hdelay => ⟨?_, count_attempt_course delay hdue.pos⟩, ?_⟩
    · exact retry_of_delays hdue hnumber hknown hdelay
    · exact fun p hp hlt hdelay hnone => retry_of_noDelay hdue hnumber hknown hp hlt hdelay hnone
  · have hbase (i : Nat) : b.delay? i (draws i) = b.baseDelay? i :=
      delay?_eq_baseDelay? hjitter i (draws i)
    refine ⟨hbase, fun hmultiplier i => ?_⟩
    rw [hbase]
    exact exists_baseDelay hmultiplier i

/-- Two failures and then a success. -/
def flaky (i : Nat) : Except String Nat := if i < 3 then .error "not yet" else .ok i

theorem due_flaky {limit : Nat} (h : limit = 0 ∨ 3 ≤ limit) : Due limit flaky 3 (.succeeded 3) :=
  .success (by decide) h (fun i _ hlt => ⟨"not yet", if_pos hlt⟩) rfl

/-- Five attempts without jitter. -/
def five : Backoff := { maxAttempts := 5, jitter := false }

theorem retry_as_due_flaky :
    Due 5 flaky 3 (.succeeded 3) ∧
      five.retry (fun _ => 0) (firstOutcomes flaky 3) =
        ⟨[.attempt, .sleep (.ofMillis 5), .attempt, .sleep (.ofMillis 10), .attempt],
          .succeeded 3⟩ := by
  have hdue : Due 5 flaky 3 (.succeeded 3) := due_flaky (.inr (by decide))
  have hdelay : ∀ i, 1 ≤ i → i < 3 → five.delay? i 0 = some (.ofMillis (5 * i)) := by
    intro i hi hlt
    obtain rfl | rfl : i = 1 ∨ i = 2 := by omega
    · decide +kernel
    · decide +kernel
  obtain ⟨hrun, -⟩ := (retry_as_due five (fun _ => 0) flaky).2.1 3 _ hdue (by decide) _ 3 le_rfl
  exact ⟨hdue, (hrun hdelay).1⟩

/-- At most three attempts. The first delay is cut off at zero, the second would be below. -/
def alternating : Backoff where
  maxAttempts := 3
  maxDelay := .zero
  multiplier := .finite { Binary64.two with negative := true }
  jitter := false

/-- Three attempts are due, but the second one has no delay. -/
theorem stuck_alternating :
    Due alternating.maxAttempts flaky 3 (.succeeded 3) ∧
      alternating.retry (fun _ => 0) (firstOutcomes flaky 3) =
        ⟨[.attempt, .sleep .zero, .attempt], .stuck⟩ ∧
      ∀ delay, alternating.retry (fun _ => 0) (firstOutcomes flaky 3) ≠
        ⟨course delay 3, .succeeded 3⟩ := by
  have hdue : Due alternating.maxAttempts flaky 3 (.succeeded 3) := due_flaky (.inr le_rfl)
  have hdelay : ∀ i, 1 ≤ i → i < 2 → alternating.delay? i 0 = some .zero := by
    intro i hi hlt
    obtain rfl : i = 1 := by omega
    decide +kernel
  have hnone : alternating.delay? 2 0 = none := by decide +kernel
  have hstuck : alternating.retry (fun _ => 0) (firstOutcomes flaky 3) =
      ⟨course (fun _ => .zero) 2, .stuck⟩ :=
    retry_of_noDelay hdue (by decide) le_rfl (by decide) (by decide) hdelay hnone
  refine ⟨hdue, hstuck, fun delay hrun => ?_⟩
  rw [hstuck] at hrun
  cases congrArg Run.ending hrun

end WarmPool.Backoff
