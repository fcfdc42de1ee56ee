import WarmPool.Proofs.Move
import WarmPool.Proofs.RequirementWrite
import WarmPool.Proofs.Scope
import WarmPool.Rehearsal

/-!
# Rehearsals in which nothing goes wrong

A cluster in memory that does not misbehave answers each call at once (`Rehearsal.calm`). What a
plan comes to on it is put together from what its parts come to (`Plan.Performs`), and a reconcile
comes to what its plan does (`Rehearsal.reconcile_of_performs`).
-/

namespace WarmPool

open Reconcile

namespace Rehearsal

/-- A cluster in memory that does not misbehave. -/
def calm (c : Cluster) : Rehearsal := { cluster := c }

/-- A call is answered by the cluster at once, and the rest follows. -/
theorem run_call {namespaceName : String} {timeout elapsed : Duration} {c c' : Cluster}
    {call : Call} {next : Except Error call.Reply → Plan Action} {reply : Except Error call.Reply}
    {ending : Controller.Ending} {s : Rehearsal} (trace : Trace)
    (hserve : Cluster.serve namespaceName c c call = (reply, c'))
    (h : run timeout (elapsed + .zero) (calm c') (next reply) = (ending, trace, s)) :
    run timeout elapsed (calm c) (.call namespaceName call next) =
      (ending, { trace with sent := (namespaceName, call) :: trace.sent }, s) := by
  have hafter : run timeout (elapsed + .zero)
      (calm (Cluster.serve namespaceName c c call).2)
      (next (Cluster.serve namespaceName c c call).1) = (ending, trace, s) := by
    rw [hserve]
    exact h
  rw [run]
  have hcut : isCutOff timeout elapsed ((calm c).latency call.method) = false := rfl
  simp only [hcut]
  exact congrArg (fun run : Controller.Ending × Trace × Rehearsal =>
    (run.1, { run.2.1 with sent := (namespaceName, call) :: run.2.1.sent }, run.2.2)) hafter

end Rehearsal

/-! ### What a plan comes to -/

namespace Reconcile.Plan

variable {α β : Type}

/-- A plan ends with a value, after these calls to a cluster, and leaves it like this. -/
inductive Performs (namespaceName : String) :
    Plan α → Cluster → α → List Call → Cluster → Prop
  | done {a : α} {c : Cluster} : Performs namespaceName (.done (.ok a)) c a [] c
  | call {call : Call} {next : Except Error call.Reply → Plan α} {c c' c'' : Cluster}
      {reply : Except Error call.Reply} {a : α} {calls : List Call}
      (hserve : Cluster.serve namespaceName c c call = (reply, c'))
      (h : Performs namespaceName (next reply) c' a calls c'') :
      Performs namespaceName (.call namespaceName call next) c a (call :: calls) c''
  | event {e : Event} {next : Plan α} {c c' : Cluster} {a : α} {calls : List Call}
      (h : Performs namespaceName next c a calls c') :
      Performs namespaceName (.event e next) c a calls c'
  | measure {m : Measure} {next : Plan α} {c c' : Cluster} {a : α} {calls : List Call}
      (h : Performs namespaceName next c a calls c') :
      Performs namespaceName (.measure m next) c a calls c'

variable {namespaceName : String} {c c' c'' : Cluster} {a : α} {b : β} {calls calls' : List Call}
  {p : Plan α} {f : α → Plan β}

theorem Performs.bind (h : p.Performs namespaceName c a calls c')
    (hf : (f a).Performs namespaceName c' b calls' c'') :
    (p >>= f).Performs namespaceName c b (calls ++ calls') c'' := by
  show (Plan.bind p f).Performs namespaceName c b (calls ++ calls') c''
  induction h with
  | done => exact hf
  | call hserve _ ih => exact .call hserve (ih hf)
  | event _ ih => exact .event (ih hf)
  | measure _ ih => exact .measure (ih hf)

theorem Performs.ask_bind {call : Call} {f : call.Reply → Plan β} {reply : call.Reply}
    (hserve : Cluster.serve namespaceName c c call = (.ok reply, c'))
    (hf : (f reply).Performs namespaceName c' b calls c'') :
    (ask namespaceName call >>= f).Performs namespaceName c b (call :: calls) c'' := .call hserve hf

theorem Performs.attempt_bind {call : Call} {f : Except Error call.Reply → Plan β}
    {reply : Except Error call.Reply}
    (hserve : Cluster.serve namespaceName c c call = (reply, c'))
    (hf : (f reply).Performs namespaceName c' b calls c'') :
    (attempt namespaceName call >>= f).Performs namespaceName c b (call :: calls) c'' :=
  .call hserve hf

theorem Performs.tell_bind {e : Event} {f : Unit → Plan β}
    (hf : (f ()).Performs namespaceName c b calls c') :
    (tell e >>= f).Performs namespaceName c b calls c' := .event hf

theorem Performs.count_bind {m : Measure} {f : Unit → Plan β}
    (hf : (f ()).Performs namespaceName c b calls c') :
    (count m >>= f).Performs namespaceName c b calls c' := .measure hf

theorem Performs.orFail_bind {e : Error} {o : Option α} (ho : o = some a)
    (hf : (f a).Performs namespaceName c b calls c') :
    (orFail e o >>= f).Performs namespaceName c b calls c' := by
  subst ho
  exact hf

end Reconcile.Plan

/-! ### What a reconcile comes to -/

namespace Rehearsal

variable {namespaceName : String} {c c' : Cluster} {settings : Settings} {occasion : Occasion}
  {r : Requirement} {action : Action} {calls : List Call}

theorem run_of_performs {p : Plan Action} (h : p.Performs namespaceName c action calls c')
    (timeout elapsed : Duration) :
    ∃ trace, run timeout elapsed (calm c) p = (.finished (.ok action), trace, calm c') ∧
      trace.calls = calls := by
  induction h generalizing elapsed with
  | done => exact ⟨_, rfl, rfl⟩
  | call hserve _ ih =>
    obtain ⟨trace, hrun, rfl⟩ := ih (elapsed + .zero)
    exact ⟨_, run_call trace hserve hrun, rfl⟩
  | event _ ih =>
    obtain ⟨trace, hrun, rfl⟩ := ih elapsed
    rw [run, hrun]
    exact ⟨_, rfl, rfl⟩
  | measure _ ih =>
    obtain ⟨trace, hrun, rfl⟩ := ih elapsed
    rw [run, hrun]
    exact ⟨_, rfl, rfl⟩

/-- A reconcile comes to what its plan does. -/
theorem reconcile_of_performs
    (h : (Reconcile.plan settings occasion r).Performs namespaceName c action calls c') :
    ∃ trace s, reconcile settings occasion (calm c) r = (.ok action, trace, s) ∧
      trace.calls = calls ∧ s.cluster = c' := by
  obtain ⟨trace, hrun, hcalls⟩ := run_of_performs h settings.timeout .zero
  unfold reconcile
  rw [hrun]
  exact ⟨_, _, rfl, hcalls, rfl⟩

theorem cluster_reconcile :
    (reconcile settings occasion (calm c) r).2.2.cluster =
      (run settings.timeout .zero (calm c) (Reconcile.plan settings occasion r)).2.2.cluster := rfl

/-- What every call of a plan keeps is kept by the plan. -/
theorem run_keeps {P : Cluster → Prop} {ok : List Answered → Call → Prop} {p : Plan Action}
    {past : List Answered} (hwithin : p.Within namespaceName) (hobeys : p.Obeys ok past)
    (hcall : ∀ past call c, ok past call → P c → P (Cluster.serve namespaceName c c call).2)
    (timeout elapsed : Duration) (h : P c) :
    P (run timeout elapsed (calm c) p).2.2.cluster := by
  induction p generalizing past elapsed c with
  | done result => exact h
  | call n call next ih =>
    obtain ⟨rfl, hnext⟩ := hwithin
    rw [run_call _ rfl rfl]
    exact ih _ (hnext _) (hobeys.2 _) _ (hcall past call c hobeys.1 h)
  | event e next ih => exact ih hwithin hobeys elapsed h
  | measure m next ih => exact ih hwithin hobeys elapsed h

end Rehearsal

/-! ### Writing a status -/

/-- A requirement is stored under its name, and all instants are valid. -/
structure Cluster.Stores (c : Cluster) (namespaceName : String) (r : Requirement) : Prop where
  stored : c.requirement? namespaceName r.name = some r
  timely : ∀ r ∈ c.requirements, r.Timely

namespace Cluster

variable {c c' : Cluster} {namespaceName name : String} {r r' : Requirement}

theorem Stores.of_stored (hstored : c.requirement? namespaceName name = some r)
    (htimely : ∀ r ∈ c.requirements, r.Timely) : c.Stores namespaceName r := by
  refine ⟨?_, htimely⟩
  rwa [show r.name = name from Metadata.anyName_of_isAt (mem_of_requirement? hstored).2]

/-- The only requirement in a cluster is stored. -/
theorem Stores.of_only (honly : c.requirements = [r])
    (hat : r.metadata.isAt namespaceName name = true) (htimely : r.Timely) :
    c.Stores namespaceName r := by
  refine .of_stored (show c.requirement? namespaceName name = some r from ?_) fun x hx => ?_
  · unfold requirement?
    rw [honly]
    exact List.find?_cons_of_pos hat
  · rw [honly] at hx
    rwa [List.mem_singleton.1 hx]

theorem Stores.isAt (h : c.Stores namespaceName r) :
    r.metadata.isAt namespaceName r.name = true := (mem_of_requirement? h.stored).2

theorem Stores.of_alike (h : c.Stores namespaceName r') (halike : r.Alike r')
    (hat : r.metadata.isAt namespaceName name = true) :
    c.requirement? namespaceName name = some r' := by
  have hname : r'.name = name := Metadata.anyName_of_isAt (halike.isAt hat)
  exact hname ▸ h.stored

theorem Stores.requirement_timely (h : c.Stores namespaceName r) : r.Timely :=
  h.timely r (mem_of_requirement? h.stored).1

theorem Stores.namespaceName_eq (h : c.Stores namespaceName r) :
    r.namespaceName = namespaceName := Requirement.namespaceName_of_isAt h.isAt

theorem Stores.isSome_namespaceName (h : c.Stores namespaceName r) :
    r.metadata.namespaceName.isSome := Metadata.isSome_namespaceName h.isAt

/-- A reconcile is not concerned with what else is in the cluster. -/
theorem Stores.congr (h : c.Stores namespaceName r) (hsame : c'.requirements = c.requirements) :
    c'.Stores namespaceName r := by
  refine ⟨?_, hsame ▸ h.timely⟩
  unfold requirement?
  rw [hsame]
  exact h.stored

/-- Writing a status leaves the requirement stored, with that status. -/
theorem Stores.patchStatus (h : c.Stores namespaceName r) {s : RequirementStatus}
    (hs : s.Timely) :
    (c.patchStatus namespaceName r.name s).2.Stores namespaceName (r.withStatus s) := by
  refine .of_stored ((requirement?_patchStatus h.timely hs).trans
    (congrArg (Option.map _) h.stored)) fun r' hr' => ?_
  exact ((revises_patchStatus h.timely hs).mem h.timely hr').1

/-- A finalizer leaves the requirement stored. -/
theorem Stores.addFinalizer (h : c.Stores namespaceName r) (finalizer : String) :
    (c.addFinalizer namespaceName r.name finalizer).2.Stores namespaceName
      (r.takeFinalizer finalizer) := by
  refine .of_stored ((requirement?_addFinalizer c namespaceName r.name finalizer).trans
    (congrArg (Option.map _) h.stored)) fun r' hr' => ?_
  exact ((revises_addFinalizer h.timely finalizer).mem h.timely hr').1

theorem drawnName_patchStatus (c : Cluster) (namespaceName name : String)
    (s : RequirementStatus) :
    (c.patchStatus namespaceName name s).2.drawnName = c.drawnName := by
  unfold Cluster.patchStatus
  split
  · rfl
  · rfl

/-- A status that goes on from that of the requirement is stored, and nothing else changes. -/
structure Reported (c : Cluster) (namespaceName : String) (r : Requirement)
    (s : RequirementStatus) (c' : Cluster) (r' : Requirement) : Prop where
  stores : c'.Stores namespaceName r'
  alike : r.Alike r'
  status : r'.status = some ((observed r s).laidOver r.known)
  operations : c'.operations = c.operations
  caches : c'.caches = c.caches
  drawnName : c'.drawnName = c.drawnName

theorem Reported.known {s : RequirementStatus} (h : c.Reported namespaceName r s c' r') :
    r'.known = (observed r s).laidOver r.known := Requirement.known_of_status h.status

theorem Reported.operation? {s : RequirementStatus} (h : c.Reported namespaceName r s c' r') :
    c'.operation? namespaceName name = c.operation? namespaceName name :=
  congrArg (List.find? _) h.operations

end Cluster

theorem RequirementStatus.laidOver_self (s : RequirementStatus) : s.laidOver s = s := by
  unfold laidOver
  rw [Option.or_self, Option.or_self]

namespace Reconcile

variable {namespaceName : String} {c : Cluster} {r q : Requirement} {s : RequirementStatus}

/-- The calls by which a status is written, none if it is there already. -/
def commitCalls (r : Requirement) (s : RequirementStatus) : List Call :=
  if r.status = some (observed r s) then [] else [.patchStatus r.name (observed r s)]

/-- A status is written to the stored requirement, which may have got a finalizer meanwhile. -/
theorem commit_performs (h : c.Stores namespaceName q) (hs : s.Timely) (halike : r.Alike q)
    (hstatus : q.status = r.status) :
    ∃ written c' r', (commit r s).Performs namespaceName c written (commitCalls r s) c' ∧
      c.Reported namespaceName r s c' r' := by
  have hknown : q.known = r.known := Requirement.known_congr hstatus
  unfold commit commitCalls
  by_cases hsame : r.status = some (observed r s)
  · rw [if_pos hsame, if_pos hsame]
    refine ⟨false, c, q, .done, h, halike, ?_, rfl, rfl, rfl⟩
    have hobserved : r.known = observed r s := Requirement.known_of_status hsame
    rw [hstatus, hsame, hobserved, RequirementStatus.laidOver_self]
  · rw [if_neg hsame, if_neg hsame]
    have hat : r.metadata.isAt namespaceName q.name = true := by
      rw [← Metadata.isAt_congr halike.place]
      exact h.isAt
    have hname : r.name = q.name := Metadata.anyName_of_isAt hat
    obtain rfl : r.namespaceName = namespaceName := Requirement.namespaceName_of_isAt hat
    have hq := h.requirement_timely
    have hs' : (observed r s).Timely := hs
    let c' := (c.patchStatus r.namespaceName r.name (observed r s)).2
    have hserve : Cluster.serve r.namespaceName c c (.patchStatus r.name (observed r s)) =
        (.ok (), c') := by
      have hreply : (c.patchStatus r.namespaceName r.name (observed r s)).1 = .ok () := by
        rw [hname]
        exact Cluster.patchStatus_ok h.stored (observed r s)
      rw [← hreply]
      rfl
    refine ⟨true, c', q.withStatus (observed r s), .ask_bind hserve .done, ?_,
      halike.trans (Requirement.alike_withStatus hq hs'), ?_,
      Cluster.operations_patchStatus c _ _ _, Cluster.caches_patchStatus c _ _ _,
      Cluster.drawnName_patchStatus c _ _ _⟩
    · unfold c'
      rw [hname]
      exact h.patchStatus hs'
    · rw [Requirement.withStatus_eq hq.1 hs', hknown]

/-- A status is written, and then the reconcile is over. -/
theorem commitThen_performs (h : c.Stores namespaceName q) (hs : s.Timely) (halike : r.Alike q)
    (hstatus : q.status = r.status) (after : Duration) :
    ∃ c' r', (commitThen r s after).Performs namespaceName c (.requeue after) (commitCalls r s) c' ∧
      c.Reported namespaceName r s c' r' := by
  obtain ⟨written, c', r', hperforms, hreported⟩ := commit_performs h hs halike hstatus
  refine ⟨c', r', ?_, hreported⟩
  rw [← List.append_nil (commitCalls r s)]
  exact hperforms.bind .done

end Reconcile

end WarmPool
