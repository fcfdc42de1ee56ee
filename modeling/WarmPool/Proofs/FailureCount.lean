import Mathlib.Data.List.Basic
import Mathlib.Data.List.Induction
import WarmPool.Controller
import WarmPool.Proofs.Backoff
import WarmPool.Rehearsal

/-!
# The count of failures over a history

The ledger is changed in two places: a reconcile that succeeds clears the entry of its requirement,
and the reaction to a failure may add to it. Whatever reconciles and reactions came about, the entry
of a requirement is the number of its counted failures since its last success
(`recentFailures`), which what became of other requirements does not enter
(`Controller.react_after`). What is counted are the errors of `Error.Passing`.

Entries are found by a text made of namespace and name. Two requirements share an entry only if they
share both, as the namespace and the name of one of them have no slash (`ledgerKey_inj`).
-/

namespace WarmPool

open Reconcile

/-! ### Which errors are counted -/

namespace Error

/-- An error that may pass, and does not say that somebody else was faster. -/
def isCounted (e : Error) : Bool := !e.isConflict && e.isRetryable

theorem isCounted_of {e : Error} (hconflict : e.isConflict = false)
    (hretryable : e.isRetryable = true) : e.isCounted = true := by
  unfold isCounted
  rw [hconflict, hretryable]
  rfl

/-- The answer 409 counts as a conflict like the conflicts the reconciler finds itself. -/
theorem isConflict_iff (e : Error) :
    e.isConflict = true ↔ (∃ kind name message, e = conflict kind name message) ∨
      ∃ s : ApiStatus, e = api (.status s) ∧ s.code = 409 := by
  constructor
  · intro h
    cases e with
    | conflict kind name message => exact .inl ⟨kind, name, message, rfl⟩
    | api failure =>
      cases failure with
      | status s => exact .inr ⟨s, rfl, Option.some.inj (of_decide_eq_true h)⟩
      | noAnswer => cases h
    | _ => cases h
  · rintro (⟨kind, name, message, rfl⟩ | ⟨s, rfl, hcode⟩)
    · rfl
    · exact decide_eq_true (congrArg some hcode)

theorem isCounted_status (s : ApiStatus) :
    (api (.status s)).isCounted = true ↔ s.code < 400 ∨ 500 ≤ s.code ∨ s.code = 429 := by
  simp only [isCounted, isConflict, isRetryable, ApiFailure.isConflict, ApiFailure.code?,
    ApiFailure.isRetryable, Bool.and_eq_true, Bool.or_eq_true, Bool.not_eq_true', decide_eq_true_eq,
    decide_eq_false_iff_not, Option.some.injEq, Bool.and_eq_false_iff]
  omega

/-- The errors that are counted, one case for each kind. -/
inductive Passing : Error → Prop where
  | notFound (kind name : String) : Passing (.notFound kind name)
  | timeout (resource : String) (seconds : Nat) : Passing (.timeout resource seconds)
  | internal (context message : String) : Passing (.internal context message)
  | noAnswer : Passing (.api .noAnswer)
  /-- The answer says that the request is not at fault, or that there were too many. -/
  | server (s : ApiStatus) (h : s.code < 400 ∨ 500 ≤ s.code ∨ s.code = 429) :
    Passing (.api (.status s))

theorem isCounted_iff (e : Error) : e.isCounted = true ↔ e.Passing := by
  constructor
  · intro h
    cases e with
    | api failure =>
      cases failure with
      | status s => exact .server s ((isCounted_status s).1 h)
      | noAnswer => exact .noAnswer
    | notFound kind name => exact .notFound kind name
    | timeout resource seconds => exact .timeout resource seconds
    | internal context message => exact .internal context message
    | conflict | validation | serialization => cases h
  · intro h
    cases h with
    | server s h => exact (isCounted_status s).2 h
    | _ => rfl

end Error

/-! ### Whose entry it is -/

namespace Requirement

variable {r r' : Requirement}

/-- What tells requirements apart: namespace and name. -/
def whose (r : Requirement) : String × String := (r.namespaceName, r.name)

/-- Neither the namespace nor the name has a slash. -/
structure Plain (r : Requirement) : Prop where
  namespaceName : '/' ∉ r.namespaceName.toList
  name : '/' ∉ r.name.toList

/-- A requirement without slashes shares its entry with no other, with slashes or without. -/
theorem ledgerKey_inj (h : r.Plain) : r'.ledgerKey = r.ledgerKey ↔ r'.whose = r.whose := by
  constructor
  · intro hkey
    have hchars : r'.namespaceName.toList ++ '/' :: r'.name.toList =
        r.namespaceName.toList ++ '/' :: r.name.toList := by
      have hkey := congrArg String.toList hkey
      unfold ledgerKey at hkey
      simpa using hkey
    obtain ⟨hnamespace, -, hname⟩ :=
      (List.append_cons_inj_of_notMem h.namespaceName h.name).1 hchars.symm
    exact Prod.ext (String.ext hnamespace.symm) (String.ext hname.symm)
  · intro hwhose
    obtain ⟨hnamespace, hname⟩ := Prod.mk.inj hwhose
    unfold ledgerKey
    rw [hnamespace, hname]

end Requirement

/-! ### The entries of the ledger -/

namespace Ledger

variable {l : Ledger} {key other : String}

@[simp]
theorem count_clear_self (l : Ledger) (key : String) : (l.clear key).count key = 0 := by
  have hnone : (l.entries.filter fun e => e.1 ≠ key).find? (fun e => e.1 = key) = none := by
    rw [List.find?_eq_none]
    intro e he hkey
    exact of_decide_eq_true (List.mem_filter.1 he).2 (of_decide_eq_true hkey)
  unfold clear count
  rw [hnone]
  rfl

theorem count_clear_of_ne (h : other ≠ key) : (l.clear key).count other = l.count other := by
  unfold clear count
  rw [List.find?_filter]
  -- An entry that is looked for is not one of those taken away.
  have hsame : (fun e : String × Nat => decide (decide (e.1 ≠ key) = true ∧
      decide (e.1 = other) = true)) = fun e => decide (e.1 = other) := by
    funext e
    have hiff : (e.1 ≠ key ∧ e.1 = other) ↔ e.1 = other :=
      ⟨fun hboth => hboth.2, fun heq => ⟨fun hkey => h (heq.symm.trans hkey), heq⟩⟩
    simpa only [decide_eq_true_eq] using decide_eq_decide.2 hiff
  rw [hsame]

@[simp]
theorem count_add_self (l : Ledger) (key : String) :
    (l.add key).count key = min (l.count key + 1) maxCount := by
  unfold add
  rw [count, List.find?_cons_of_pos (by simp)]
  rfl

theorem count_add_of_ne (h : other ≠ key) : (l.add key).count other = l.count other := by
  have hfirst : ((l.add key).count other) = (l.clear key).count other := by
    unfold add
    rw [count, List.find?_cons_of_neg (by simpa using h.symm)]
    rfl
  rw [hfirst, count_clear_of_ne h]

end Ledger

/-! ### One incident -/

namespace Controller

variable {settings : Settings} {ledger : Ledger} {r r' : Requirement} {e : Error}
  {draw : Backoff.Draw}

theorem react_of_conflict (h : e.isConflict = true) :
    react settings ledger r e draw = (some (.requeue .zero), ledger) := by
  unfold react
  rw [if_pos h]

theorem react_of_final (hconflict : e.isConflict = false) (hfinal : e.isRetryable = false) :
    react settings ledger r e draw = (some .awaitChange, ledger) := by
  unfold react
  rw [hconflict, hfinal]
  rfl

theorem react_of_counted (h : e.isCounted = true) :
    react settings ledger r e draw =
      ((settings.backoff.delay? (min (ledger.count r.ledgerKey + 1) Ledger.maxCount) draw).map
        .requeue, ledger.add r.ledgerKey) := by
  unfold Error.isCounted at h
  rw [Bool.and_eq_true, Bool.not_eq_true'] at h
  unfold react
  rw [h.1, h.2, ← Ledger.count_add_self]
  rfl

/-- The action depends on the ledger through the count of the requirement alone. -/
theorem react_fst_congr {other : Ledger} (h : other.count r.ledgerKey = ledger.count r.ledgerKey) :
    (react settings other r e draw).1 = (react settings ledger r e draw).1 := by
  by_cases hconflict : e.isConflict = true
  · rw [react_of_conflict hconflict, react_of_conflict hconflict]
  · have hconflict := Bool.eq_false_iff.2 hconflict
    by_cases hretryable : e.isRetryable = true
    · have hcounted : e.isCounted = true := Error.isCounted_of hconflict hretryable
      rw [react_of_counted hcounted, react_of_counted hcounted, h]
    · have hfinal := Bool.eq_false_iff.2 hretryable
      rw [react_of_final hconflict hfinal, react_of_final hconflict hfinal]

/-- What may change the ledger. -/
inductive Incident where
  /-- A reconcile of a requirement came to its end. -/
  | ended (r : Requirement) (ending : Ending)
  /-- The controller reacted to an error. -/
  | reacted (r : Requirement) (e : Error) (draw : Backoff.Draw)

namespace Incident

/-- The requirement that an incident is about. -/
def requirement : Incident → Requirement
  | ended r _ => r
  | reacted r _ _ => r

/-- Whether an incident is a success of this requirement. -/
def isSuccess (who : String × String) : Incident → Bool
  | ended r (.finished (.ok _)) => r.whose = who
  | _ => false

/-- Whether an incident is a counted failure of this requirement. -/
def isFailure (who : String × String) : Incident → Bool
  | reacted r e _ => r.whose = who && e.isCounted
  | _ => false

/-- The ledger after an incident. -/
def record (settings : Settings) (ledger : Ledger) : Incident → Ledger
  | ended r ending => settle r ledger (result settings r ending)
  | reacted r e draw => (react settings ledger r e draw).2

/-- An incident of another requirement is neither. -/
theorem not_own {i : Incident} {who : String × String} (h : i.requirement.whose ≠ who) :
    i.isSuccess who = false ∧ i.isFailure who = false := by
  constructor
  · unfold isSuccess
    split
    · exact decide_eq_false h
    · rfl
  · unfold isFailure
    split
    · exact Bool.and_eq_false_iff.2 (.inl (decide_eq_false h))
    · rfl

end Incident

theorem count_settle_of_ne (hplain : r.Plain) (hother : r'.whose ≠ r.whose)
    (outcome : Except Error Action) :
    (settle r' ledger outcome).count r.ledgerKey = ledger.count r.ledgerKey := by
  have hkey : r.ledgerKey ≠ r'.ledgerKey := fun heq =>
    hother ((Requirement.ledgerKey_inj hplain).1 heq.symm)
  cases outcome with
  | ok action => exact Ledger.count_clear_of_ne hkey
  | error e => rfl

theorem count_react_of_ne (hplain : r.Plain) (hother : r'.whose ≠ r.whose) (e : Error)
    (draw : Backoff.Draw) :
    (react settings ledger r' e draw).2.count r.ledgerKey = ledger.count r.ledgerKey := by
  have hkey : r.ledgerKey ≠ r'.ledgerKey := fun heq =>
    hother ((Requirement.ledgerKey_inj hplain).1 heq.symm)
  unfold react
  split_ifs
  · rfl
  · rfl
  · exact Ledger.count_add_of_ne hkey

/-- What an incident does to the count of a requirement. -/
theorem count_record (hplain : r.Plain) (ledger : Ledger) (i : Incident) :
    (i.record settings ledger).count r.ledgerKey =
      if i.isSuccess r.whose then 0
      else if i.isFailure r.whose then min (ledger.count r.ledgerKey + 1) Ledger.maxCount
      else ledger.count r.ledgerKey := by
  by_cases hown : i.requirement.whose = r.whose
  · have hkey : i.requirement.ledgerKey = r.ledgerKey :=
      (Requirement.ledgerKey_inj hplain).2 hown
    rw [← hown, ← hkey]
    cases i with
    | ended r' ending =>
      cases ending with
      | finished outcome =>
        cases outcome with
        | ok action =>
          simp only [Incident.isSuccess, Incident.requirement, decide_true, if_true]
          exact Ledger.count_clear_self ledger r'.ledgerKey
        | error e => rfl
      | cutOff => rfl
    | reacted r' e draw =>
      show (react settings ledger r' e draw).2.count r'.ledgerKey =
        if (decide (r'.whose = r'.whose) && e.isCounted) = true then
          min (ledger.count r'.ledgerKey + 1) Ledger.maxCount
        else ledger.count r'.ledgerKey
      rw [decide_eq_true rfl, Bool.true_and]
      by_cases hcounted : e.isCounted = true
      · rw [if_pos hcounted, react_of_counted hcounted]
        exact Ledger.count_add_self ledger r'.ledgerKey
      · rw [if_neg hcounted]
        -- An error that is not counted is a conflict or final.
        by_cases hconflict : e.isConflict = true
        · rw [react_of_conflict hconflict]
        · have hconflict := Bool.eq_false_iff.2 hconflict
          have hfinal : e.isRetryable = false := by
            unfold Error.isCounted at hcounted
            simpa [hconflict] using hcounted
          rw [react_of_final hconflict hfinal]
  · rw [(Incident.not_own hown).1, (Incident.not_own hown).2, if_neg Bool.false_ne_true,
      if_neg Bool.false_ne_true]
    cases i with
    | ended r' ending => exact count_settle_of_ne hplain hown _
    | reacted r' e draw => exact count_react_of_ne hplain hown e draw

/-! ### A whole history -/

/-- The ledger after a history that began without failures. -/
def replay (settings : Settings) (history : List Incident) : Ledger :=
  history.foldl (Incident.record settings) {}

theorem replay_concat (settings : Settings) (history : List Incident) (i : Incident) :
    replay settings (history ++ [i]) = i.record settings (replay settings history) :=
  List.foldl_append

/-- The counted failures of a requirement after its last success, read off the history. -/
def recentFailures (who : String × String) (history : List Incident) : Nat :=
  (history.reverse.takeWhile fun i => !i.isSuccess who).countP (Incident.isFailure who)

variable {history : List Incident} {who : String × String}

theorem recentFailures_concat (who : String × String) (history : List Incident) (i : Incident) :
    recentFailures who (history ++ [i]) =
      if i.isSuccess who then 0
      else if i.isFailure who then recentFailures who history + 1
      else recentFailures who history := by
  unfold recentFailures
  rw [List.reverse_concat]
  by_cases hsuccess : i.isSuccess who = true
  · rw [List.takeWhile_cons_of_neg (by simp [hsuccess]), if_pos hsuccess]
    rfl
  · rw [List.takeWhile_cons_of_pos (by simp [hsuccess]), if_neg hsuccess]
    by_cases hfailure : i.isFailure who = true
    · rw [List.countP_cons_of_pos hfailure, if_pos hfailure]
    · rw [List.countP_cons_of_neg hfailure, if_neg hfailure]

/-- The count is the number of recent failures, as far as it can be told. -/
theorem count_replay (hplain : r.Plain) (settings : Settings) (history : List Incident) :
    (replay settings history).count r.ledgerKey =
      min (recentFailures r.whose history) Ledger.maxCount := by
  induction history using List.reverseRecOn with
  | nil => rfl
  | append_singleton history i ih =>
    rw [replay_concat, count_record hplain, recentFailures_concat, ih]
    split_ifs
    · exact (Nat.zero_min _).symm
    · omega
    · rfl

/-- What became of other requirements does not matter. -/
theorem recentFailures_own (who : String × String) (history : List Incident) :
    recentFailures who (history.filter fun i => i.requirement.whose = who) =
      recentFailures who history := by
  induction history using List.reverseRecOn with
  | nil => rfl
  | append_singleton history i ih =>
    rw [List.filter_append, recentFailures_concat]
    by_cases hown : i.requirement.whose = who
    · rw [List.filter_cons_of_pos (by simpa using hown), List.filter_nil, recentFailures_concat, ih]
    · rw [List.filter_cons_of_neg (by simpa using hown), List.filter_nil, List.append_nil, ih,
        (Incident.not_own hown).1, (Incident.not_own hown).2]
      rfl

/--
After any history of reconciles and reactions the count of a requirement is the number of its recent
failures. The reaction to a conflict and to a final error leaves the ledger as it is; any other
error is one failure more, the delay is the one for that many, and no other count changes. Neither
the count nor the reaction depends on what became of other requirements.
-/
theorem react_after (settings : Settings) (history : List Incident) {r : Requirement}
    (hplain : r.Plain) :
    let ledger := replay settings history
    let own := replay settings (history.filter fun i => i.requirement.whose = r.whose)
    let failures := recentFailures r.whose history
    ledger.count r.ledgerKey = min failures Ledger.maxCount ∧
      own.count r.ledgerKey = ledger.count r.ledgerKey ∧
      ∀ e draw,
        (react settings own r e draw).1 = (react settings ledger r e draw).1 ∧
        (e.isConflict = true → react settings ledger r e draw = (some (.requeue .zero), ledger)) ∧
        (e.isConflict = false → e.isRetryable = false →
          react settings ledger r e draw = (some .awaitChange, ledger)) ∧
        (e.isConflict = false → e.isRetryable = true →
          let attempt := min (failures + 1) Ledger.maxCount
          (react settings ledger r e draw).1 =
              (settings.backoff.delay? attempt draw).map .requeue ∧
            (settings.backoff.jitter = false → settings.backoff.multiplier.NotBelowZero →
              ∃ delay, settings.backoff.baseDelay? attempt = some delay ∧
                (react settings ledger r e draw).1 = some (.requeue delay)) ∧
            (react settings ledger r e draw).2.count r.ledgerKey = attempt ∧
            ∀ r' : Requirement, r'.whose ≠ r.whose →
              (react settings ledger r e draw).2.count r'.ledgerKey =
                ledger.count r'.ledgerKey) := by
  intro ledger own failures
  have hcount : ledger.count r.ledgerKey = min failures Ledger.maxCount :=
    count_replay hplain settings history
  have hown : own.count r.ledgerKey = ledger.count r.ledgerKey := by
    rw [hcount]
    show (replay settings _).count r.ledgerKey = _
    rw [count_replay hplain, recentFailures_own]
  refine ⟨hcount, hown, fun e draw => ⟨?_, react_of_conflict, react_of_final, ?_⟩⟩
  · exact react_fst_congr hown
  · intro hconflict hretryable attempt
    have hcounted : e.isCounted = true := Error.isCounted_of hconflict hretryable
    have hattempt : min (ledger.count r.ledgerKey + 1) Ledger.maxCount = attempt := by
      show _ = min (failures + 1) Ledger.maxCount
      omega
    have hreact := @react_of_counted settings ledger r e draw hcounted
    rw [hattempt] at hreact
    rw [hreact]
    refine ⟨rfl, ?_, ?_, ?_⟩
    · intro hjitter hsign
      obtain ⟨delay, hdelay⟩ := Backoff.exists_baseDelay hsign attempt
      refine ⟨delay, hdelay, ?_⟩
      rw [Backoff.delay?_eq_baseDelay? hjitter, hdelay]
      rfl
    · exact (Ledger.count_add_self ledger r.ledgerKey).trans hattempt
    · intro r' hother
      exact Ledger.count_add_of_ne fun hkey => hother ((Requirement.ledgerKey_inj hplain).1 hkey)

/-- A requirement of which the namespace and the name are known. -/
def bareRequirement (namespaceName name : String) : Requirement where
  metadata := { name := some name, namespaceName := some namespaceName }
  spec := { template := {} }

/-- Two failures since the last success, among a conflict and what became of another. -/
def mixedHistory : List Incident :=
  [.reacted (bareRequirement "dev" "app") (.internal "step" "lost") 0,
    .ended (bareRequirement "dev" "app") (.finished (.ok .awaitChange)),
    .reacted (bareRequirement "dev" "app") (.api .noAnswer) 0,
    .reacted (bareRequirement "prod" "app") (.api .noAnswer) 0,
    .reacted (bareRequirement "dev" "app") (.conflict "Operation" "warm" "stale") 0,
    .ended (bareRequirement "dev" "app") .cutOff,
    .reacted (bareRequirement "dev" "app") (.timeout "dev/app" 30) 0,
    .ended (bareRequirement "prod" "app") (.finished (.ok .awaitChange))]

theorem react_after_mixedHistory :
    (bareRequirement "dev" "app").Plain ∧
      (replay {} mixedHistory).count (bareRequirement "dev" "app").ledgerKey = 2 := by
  have hplain : (bareRequirement "dev" "app").Plain := ⟨by decide, by decide⟩
  have hcount := (react_after {} mixedHistory hplain).1
  have hfailures : recentFailures (bareRequirement "dev" "app").whose mixedHistory = 2 := by decide
  rw [hfailures] at hcount
  exact ⟨hplain, hcount⟩

end Controller

/-! ### A rehearsal makes a history -/

namespace Rehearsal

/-- The calls of a reconcile do not touch the ledger. -/
theorem ledger_run (timeout elapsed : Duration) (s : Rehearsal) (plan : Plan Action) :
    (run timeout elapsed s plan).2.2.ledger = s.ledger := by
  induction plan generalizing elapsed s with
  | done result => rfl
  | event e next ih => exact ih elapsed s
  | measure m next ih => exact ih elapsed s
  | call n c next ih =>
    have hanswer : (s.answer n c).2.ledger = s.ledger := by
      unfold answer
      split <;> rfl
    unfold run
    dsimp only
    split_ifs
    · rfl
    · exact (ih _ _ _).trans hanswer

theorem ledger_reconcile (settings : Settings) (occasion : Occasion) (s : Rehearsal)
    (r : Requirement) :
    ∃ ending, (s.reconcile settings occasion r).1 = Controller.result settings r ending ∧
      (s.reconcile settings occasion r).2.2.ledger =
        (Controller.Incident.ended r ending).record settings s.ledger := by
  refine ⟨_, rfl, ?_⟩
  show Controller.settle r (run settings.timeout .zero s _).2.2.ledger _ = _
  rw [ledger_run]
  rfl

theorem ledger_react (settings : Settings) (s : Rehearsal) (r : Requirement) (e : Error)
    (draw : Backoff.Draw) :
    (s.react settings r e draw).2.ledger =
      (Controller.Incident.reacted r e draw).record settings s.ledger := rfl

end Rehearsal

end WarmPool
