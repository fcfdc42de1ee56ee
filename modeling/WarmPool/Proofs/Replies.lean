import Mathlib.Data.List.Induction
import WarmPool.Proofs.Plan
import WarmPool.Rehearsal

/-!
# Runs under any replies

A plan run against replies that nothing restricts. `Plan.ComesTo` relates a plan to what is left of
it once its first calls were answered: a run that is over has come to `Plan.done`, and one that was
cut off, to the call it was waiting for. `Obeys.of_comesTo` carries what a plan obeys over to the
calls of such a run, and `Obeys.pairwise` what it obeys about two calls. `FailStop` says of a plan
that the failure of a call is the end of it, and `FailStop.of_comesTo` the same of a run. What a
rehearsal calls is what such a run calls (`Rehearsal.reconcile_comesTo`).
-/

namespace WarmPool.Reconcile

namespace Plan

variable {α β : Type} {p q rest : Plan α} {f : α → Plan β} {c : Call} {a : Answered}
  {answers before after past : List Answered}

/-- The plan comes to the last one by having these calls answered, in this order. -/
inductive ComesTo : Plan α → List Answered → Plan α → Prop
  | here {p : Plan α} : ComesTo p [] p
  | call {n : String} {c : Call} {next : Except Error c.Reply → Plan α} {answers : List Answered}
      {rest : Plan α} (reply : Except Error c.Reply) (h : ComesTo (next reply) answers rest) :
      ComesTo (.call n c next) (⟨c, reply⟩ :: answers) rest
  | event {e : Event} {next rest : Plan α} {answers : List Answered}
      (h : ComesTo next answers rest) : ComesTo (.event e next) answers rest
  | measure {m : Measure} {next rest : Plan α} {answers : List Answered}
      (h : ComesTo next answers rest) : ComesTo (.measure m next) answers rest

/-- A run may be broken off anywhere. -/
theorem ComesTo.split (h : p.ComesTo (before ++ after) rest) :
    ∃ q, p.ComesTo before q ∧ q.ComesTo after rest := by
  generalize hall : before ++ after = answers at h
  induction h generalizing before with
  | here =>
    obtain ⟨rfl, rfl⟩ := List.append_eq_nil_iff.1 hall
    exact ⟨_, .here, .here⟩
  | event _ ih =>
    obtain ⟨q, hbefore, hafter⟩ := ih hall
    exact ⟨q, .event hbefore, hafter⟩
  | measure _ ih =>
    obtain ⟨q, hbefore, hafter⟩ := ih hall
    exact ⟨q, .measure hbefore, hafter⟩
  | call reply h ih =>
    cases before with
    | nil =>
      obtain rfl : after = _ := hall
      exact ⟨_, .here, .call reply h⟩
    | cons first before =>
      obtain ⟨rfl, htail⟩ := List.cons.inj hall
      obtain ⟨q, hbefore, hafter⟩ := ih htail
      exact ⟨q, .call reply hbefore, hafter⟩

/-! ### What is obeyed -/

section Obeys

variable {ok : List Answered → Call → Prop} {post : List Answered → α → Prop}

theorem Meets.of_comesTo (h : p.Meets ok post past) (hrun : p.ComesTo answers rest) :
    rest.Meets ok post (answers.reverse ++ past) := by
  induction hrun generalizing past with
  | here => exact h
  | call reply _ ih =>
    rw [List.reverse_cons, List.append_assoc]
    exact ih (h.2 reply)
  | event _ ih => exact ih h
  | measure _ ih => exact ih h

theorem Obeys.of_first (h : p.Obeys ok past) (hrun : p.ComesTo (a :: after) rest) :
    ok past a.call := by
  generalize hall : a :: after = answers at hrun
  induction hrun with
  | here => cases hall
  | call reply _ _ =>
    obtain ⟨rfl, -⟩ := List.cons.inj hall
    exact h.1
  | event _ ih => exact ih h hall
  | measure _ ih => exact ih h hall

/-- Each call of a run is `ok` after those answered before it. -/
theorem Obeys.of_comesTo (h : p.Obeys ok []) (hrun : p.ComesTo (before ++ a :: after) rest) :
    ok before.reverse a.call := by
  obtain ⟨q, hbefore, hafter⟩ := hrun.split
  have hq : q.Obeys ok (before.reverse ++ []) := Meets.of_comesTo h hbefore
  rw [List.append_nil] at hq
  exact hq.of_first hafter

/-- What holds of each call and those answered before it holds of any two calls of a run. -/
theorem Obeys.pairwise {R : Call → Call → Prop}
    (h : p.Obeys (fun past c => ∀ a ∈ past, R a.call c) []) (hrun : p.ComesTo answers rest) :
    (answers.map Answered.call).Pairwise R := by
  -- By induction on the run from its end, since a call is judged by all that were before it.
  induction answers using List.reverseRecOn generalizing rest with
  | nil => exact List.Pairwise.nil
  | append_singleton before last ih =>
    obtain ⟨q, hbefore, -⟩ := hrun.split
    rw [List.map_append, List.map_singleton, List.pairwise_append]
    refine ⟨ih hbefore, List.pairwise_singleton _ _, fun c hc c' hc' => ?_⟩
    obtain ⟨a, ha, rfl⟩ := List.mem_map.1 hc
    rw [List.mem_singleton.1 hc']
    exact h.of_comesTo hrun a (List.mem_reverse.2 ha)

end Obeys

/-! ### Failures -/

/-- The plan makes no more calls, and fails with this error. -/
def FailsWith (e : Error) : Plan α → Prop
  | done result => result = .error e
  | call _ _ _ => False
  | event _ next => next.FailsWith e
  | measure _ next => next.FailsWith e

/-- Once a call fails, the plan makes no more calls and fails with the error of that one. -/
def FailStop : Plan α → Prop
  | done _ => True
  | call _ _ next => (∀ e, (next (.error e)).FailsWith e) ∧ ∀ a, (next (.ok a)).FailStop
  | event _ next => next.FailStop
  | measure _ next => next.FailStop

variable {e : Error}

theorem FailsWith.bind (h : p.FailsWith e) : (p >>= f).FailsWith e := by
  show (Plan.bind p f).FailsWith e
  induction p with
  | done result =>
    obtain rfl : result = .error e := h
    rfl
  | call n c next ih => exact h
  | event e next ih => exact ih h
  | measure m next ih => exact ih h

theorem FailStop.bind (h : p.FailStop) (hf : ∀ a, (f a).FailStop) : (p >>= f).FailStop := by
  show (Plan.bind p f).FailStop
  induction p with
  | done result =>
    cases result with
    | error e => exact trivial
    | ok a => exact hf a
  | call n c next ih => exact ⟨fun e => (h.1 e).bind, fun a => ih (.ok a) (h.2 a)⟩
  | event e next ih => exact ih h
  | measure m next ih => exact ih h

theorem FailStop.ask_bind {f : c.Reply → Plan α} (hf : ∀ a, (f a).FailStop) :
    (ask n c >>= f).FailStop := ⟨fun _ => rfl, hf⟩

theorem FailStop.orFail_bind {o : Option β} {f : β → Plan α} (hf : ∀ b, (f b).FailStop) :
    (orFail e o >>= f).FailStop := by
  cases o with
  | none => exact trivial
  | some b => exact hf b

/-- A plan that has failed has come to its end. -/
theorem FailsWith.of_comesTo (h : p.FailsWith e) (hrun : p.ComesTo answers rest) :
    answers = [] ∧ rest.FailsWith e := by
  induction hrun with
  | here => exact ⟨rfl, h⟩
  | call _ _ _ => exact h.elim
  | event _ ih => exact ih h
  | measure _ ih => exact ih h

/-- The first failure in a run is its last answer. -/
theorem FailStop.of_comesTo {reply : Except Error c.Reply} (h : p.FailStop)
    (hrun : p.ComesTo (before ++ ⟨c, reply⟩ :: after) rest) (hfailed : reply = .error e) :
    after = [] ∧ rest.FailsWith e := by
  generalize hall : before ++ ⟨c, reply⟩ :: after = answers at hrun
  induction hrun generalizing before with
  | here => cases (List.append_eq_nil_iff.1 hall).2
  | event _ ih => exact ih h hall
  | measure _ ih => exact ih h hall
  | call reply' hnext ih =>
    cases before with
    | nil =>
      obtain ⟨hsame, rfl⟩ := List.cons.inj hall
      cases hsame
      rw [hfailed] at hnext
      exact (h.1 e).of_comesTo hnext
    | cons first before =>
      obtain ⟨-, htail⟩ := List.cons.inj hall
      cases reply' with
      | ok a => exact ih (h.2 a) htail
      | error e' =>
        -- Nothing is answered after a failure, so this call cannot come later.
        have hnone := ((h.1 e').of_comesTo hnext).1
        rw [hnone] at htail
        cases (List.append_eq_nil_iff.1 htail).2

end Plan

end WarmPool.Reconcile

namespace WarmPool.Rehearsal

open Reconcile

variable {p : Plan Action}

/--
A rehearsal runs a plan with some answers: to its end, or to the call during which the deadline
passed.
-/
theorem run_comesTo (timeout elapsed : Duration) (s : Rehearsal)
    {ending : Controller.Ending} {trace : Trace} {s' : Rehearsal}
    (h : s.run timeout elapsed p = (ending, trace, s')) :
    ∃ answers rest, p.ComesTo answers rest ∧
      ((∃ result, ending = .finished result ∧ rest = .done result ∧
          trace.calls = answers.map Answered.call) ∨
        ∃ n c next, ending = .cutOff ∧ rest = .call n c next ∧
          trace.calls = answers.map Answered.call ++ [c]) := by
  induction p generalizing elapsed s ending trace s' with
  | done result =>
    cases h
    exact ⟨[], _, .here, .inl ⟨result, rfl, rfl, rfl⟩⟩
  | event e next ih =>
    obtain ⟨answers, rest, hrun, hend⟩ := ih elapsed s rfl
    cases h
    exact ⟨answers, rest, .event hrun, hend⟩
  | measure m next ih =>
    obtain ⟨answers, rest, hrun, hend⟩ := ih elapsed s rfl
    cases h
    exact ⟨answers, rest, .measure hrun, hend⟩
  | call n c next ih =>
    rw [run] at h
    by_cases hcut : isCutOff timeout elapsed (s.latency c.method) = true
    · rw [if_pos hcut] at h
      cases h
      exact ⟨[], _, .here, .inr ⟨n, c, next, rfl, rfl, rfl⟩⟩
    · rw [if_neg hcut] at h
      obtain ⟨answers, rest, hrun, hend⟩ := ih (s.answer n c).1
        (elapsed + s.latency c.method) (s.answer n c).2 rfl
      cases h
      refine ⟨_, rest, .call _ hrun, ?_⟩
      rcases hend with ⟨result, hending, hrest, hcalls⟩ | ⟨n', last, after, hending, hrest, hcalls⟩
      · exact .inl ⟨result, hending, hrest, congrArg (c :: ·) hcalls⟩
      · exact .inr ⟨n', last, after, hending, hrest, congrArg (c :: ·) hcalls⟩

/--
A reconcile in a rehearsal has the result to which its plan comes, or was cut off during the call to
which it comes.
-/
theorem reconcile_comesTo (settings : Settings) (occasion : Occasion) (s : Rehearsal)
    (r : Requirement) {result : Except Error Action} {trace : Trace} {s' : Rehearsal}
    (h : s.reconcile settings occasion r = (result, trace, s')) :
    ∃ answers rest, (Reconcile.plan settings occasion r).ComesTo answers rest ∧
      ((rest = .done result ∧ trace.calls = answers.map Answered.call) ∨
        ∃ n c next, rest = .call n c next ∧ trace.calls = answers.map Answered.call ++ [c] ∧
          result = .error (.timeout r.ledgerKey settings.timeout.seconds)) := by
  obtain ⟨answers, rest, hrun, hend⟩ :=
    @run_comesTo (Reconcile.plan settings occasion r) settings.timeout .zero s _ _ _ rfl
  unfold reconcile at h
  cases h
  refine ⟨answers, rest, hrun, ?_⟩
  rcases hend with ⟨result, hending, hrest, hcalls⟩ | ⟨n, c, next, hending, hrest, hcalls⟩
  · exact .inl ⟨by rw [hrest, hending]; rfl, hcalls⟩
  · exact .inr ⟨n, c, next, hrest, hcalls, by rw [hending]; rfl⟩

end WarmPool.Rehearsal
