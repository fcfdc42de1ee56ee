import WarmPool.Proofs.Conditions
import WarmPool.Proofs.Rounds

/-!
# At rest

When a reconcile changes nothing: the status to be written is the one that is stored. What was
written once is not written again, at whatever time (`RequirementStatus.Says`), so a requirement
that says how its operation is, or that its pool has nothing, stays at rest as long as that is so.
-/

namespace WarmPool

open Reconcile

/-! ### Reads change nothing -/

theorem Cluster.serve_of_not_isMutation {c view : Cluster} {namespaceName : String} {call : Call}
    (h : call.isMutation = false) : (serve namespaceName view c call).2 = c := by
  cases call with
  | getCache _ => rfl
  | getOperation _ => rfl
  | listOperations _ => rfl
  | _ => cases h

/-- A plan that only reads leaves the cluster as it is. -/
theorem Reconcile.Plan.Performs.cluster_eq {α : Type} {namespaceName : String} {p : Plan α}
    {c c' : Cluster} {a : α} {calls : List Call} (h : p.Performs namespaceName c a calls c')
    (hreads : ∀ call ∈ calls, call.isMutation = false) : c' = c := by
  induction h with
  | done => rfl
  | @call call next c c' c'' reply a calls hserve _ ih =>
    have hsame : c' = c := by
      rw [← show (Cluster.serve namespaceName c c call).2 = c' by rw [hserve]]
      exact Cluster.serve_of_not_isMutation (hreads call List.mem_cons_self)
    rw [ih fun call hcall => hreads call (List.mem_cons_of_mem _ hcall), hsame]
  | event _ ih => exact ih hreads
  | measure _ ih => exact ih hreads

/-! ### Statuses that are stored -/

/-- A requirement that is to be advanced: valid, not being deleted, with a UID and a generation. -/
structure Requirement.Live (r : Requirement) (uid : String) : Prop where
  kept : r.isDeleting = false
  valid : r.spec.validate = .ok ()
  uid : r.metadata.uid = some uid
  generation : r.metadata.generation.isSome

/-- The stored status says all that is known, and for the present generation. -/
def Requirement.Settled (r : Requirement) : Prop := r.status = some (observed r r.known)

namespace Requirement

variable {r r' : Requirement} {uid : String} {phase : RequirementPhase}

theorem Live.alike (h : r.Live uid) (halike : r.Alike r') : r'.Live uid :=
  ⟨halike.deleting.trans h.kept, halike.spec ▸ h.valid, halike.uid.trans h.uid,
    halike.generation ▸ h.generation⟩

theorem Live.from_ (h : r.Live uid) (hphase : r.known.phase = phase) : AdvancesFrom r phase :=
  ⟨h.kept, h.valid, hphase⟩

end Requirement

namespace Cluster.Reported

variable {c c' : Cluster} {namespaceName uid : String} {r r' : Requirement}
  {s : RequirementStatus}

/-- A requirement with a generation is settled by a status. -/
theorem settled (h : c.Reported namespaceName r s c' r') (hlive : r.Live uid) : r'.Settled := by
  obtain ⟨generation, hgeneration⟩ := Option.isSome_iff_exists.1 hlive.generation
  have hsame : observed r' ((observed r s).laidOver r.known) = (observed r s).laidOver r.known := by
    unfold observed RequirementStatus.laidOver
    rw [h.alike.generation, hgeneration]
    rfl
  unfold Requirement.Settled
  rw [h.known, hsame]
  exact h.status

theorem phase (h : c.Reported namespaceName r s c' r') : r'.known.phase = s.phase := by
  rw [h.known]
  rfl

theorem operationName (h : c.Reported namespaceName r s c' r') :
    r'.known.operationName = s.operationName := by
  rw [h.known]
  rfl

theorem key (h : c.Reported namespaceName r s c' r') :
    r'.known.key = s.key.or r.known.key := by
  rw [h.known]
  rfl

theorem tells (h : c.Reported namespaceName r s c' r') {type reason message : String}
    {status : ConditionStatus} (htold : s.Says type status reason message) :
    r'.known.Says type status reason message := by
  rw [h.known]
  exact htold.of_conditions rfl

end Cluster.Reported

namespace Reconcile

variable {settings : Settings} {namespaceName uid operation : String} {c : Cluster}
  {r : Requirement} {op : Operation} {s : RequirementStatus}

/-- A status that is known already is not written. -/
theorem commitCalls_eq_nil (hsettled : r.Settled) (h : s = r.known) : commitCalls r s = [] := by
  unfold commitCalls
  rw [h]
  exact if_pos hsettled

/-- A status that is not written is known already. -/
theorem status_of_commitCalls (h : ∀ call ∈ commitCalls r s, call.isMutation = false) :
    r.status = some (observed r s) := by
  by_contra hdiffers
  unfold commitCalls at h
  rw [if_neg hdiffers] at h
  exact absurd (h _ List.mem_cons_self) Bool.noConfusion

/-! ### Waiting -/

/-- A reconcile is not to follow at once, by these settings. -/
inductive Waits (settings : Settings) : Action → Prop
  | change : Waits settings .awaitChange
  | cachePoll : Waits settings (.requeue settings.cachePoll)
  | readinessPoll : Waits settings (.requeue settings.readinessPoll)
  | readyResync : Waits settings (.requeue settings.readyResync)

/-- A reconcile of the stored requirement changes nothing and waits, whenever it takes place. -/
def Rests (settings : Settings) (namespaceName : String) (c : Cluster) (r : Requirement) : Prop :=
  ∀ occasion : Occasion, occasion.now.Valid → ∃ action calls c',
    (plan settings occasion r).Performs namespaceName c action calls c' ∧
      (∀ call ∈ calls, call.isMutation = false) ∧ Waits settings action

theorem readiness_eq_known (hphase : r.known.phase = .ready)
    (htold : r.known.Says RequirementStatus.readyType .true "OperationReady"
      (operation ++ " is Ready")) (now : Timestamp) : readiness r operation now = r.known := by
  unfold readiness RequirementStatus.operationReady
  rw [htold now, ← hphase]

theorem unreadiness_eq_known (hphase : r.known.phase = .operating) {phase : OperationPhase}
    (htold : r.known.Says RequirementStatus.readyType .false "OperationNotReady"
      (operation ++ " is " ++ phase.name)) (now : Timestamp) :
    unreadiness r operation phase now = r.known := by
  unfold unreadiness RequirementStatus.operationNotReady
  rw [htold now, ← hphase]

theorem waiting_eq_known (hkey : r.known.key = some (soughtKey r r.known))
    (hfound : r.known.Says RequirementStatus.cacheFoundType .true "CacheCRFound"
      (Cache.nameForKey (soughtKey r r.known) ++ " exists"))
    (hnothing : r.known.Says RequirementStatus.acquiredType .false "NoOperationAvailable"
      (Cache.nameForKey (soughtKey r r.known) ++ " has no acquirable operation"))
    (now : Timestamp) : waiting r now = r.known := by
  have hsame : ({ r.known with key := some (soughtKey r r.known) } : RequirementStatus) =
      r.known := by rw [← hkey]
  unfold waiting searching RequirementStatus.cacheFound RequirementStatus.nothingAcquirable
  rw [hsame, hfound now, hnothing now]

/-- A requirement that shows its operation ready rests. -/
theorem rests_ready (h : c.Stores namespaceName r) (hlive : r.Live uid) (hsettled : r.Settled)
    (hphase : r.known.phase = .ready) (hbound : r.known.operationName = some operation)
    (hop : c.operation? namespaceName operation = some op)
    (howner : (op.metadata.findOwner? uid).isSome) (hready : op.isReady = true)
    (htold : r.known.Says RequirementStatus.readyType .true "OperationReady"
      (operation ++ " is Ready")) : Rests settings namespaceName c r := by
  intro occasion hnow
  obtain ⟨c', r', hperforms, -⟩ := plan_performs_ready h hnow (.inr (hlive.from_ hphase)) hlive.uid
    hbound hop howner hready
  rw [commitCalls_eq_nil hsettled (readiness_eq_known hphase htold _)] at hperforms
  refine ⟨_, _, c', hperforms, fun call hcall => ?_, .readyResync⟩
  rw [List.mem_singleton.1 hcall]
  rfl

/-- A requirement that shows in which phase its operation is rests. -/
theorem rests_notReady (h : c.Stores namespaceName r) (hlive : r.Live uid)
    (hsettled : r.Settled) (hphase : r.known.phase = .operating)
    (hbound : r.known.operationName = some operation)
    (hop : c.operation? namespaceName operation = some op)
    (howner : (op.metadata.findOwner? uid).isSome) (hready : op.isReady = false)
    (htold : r.known.Says RequirementStatus.readyType .false "OperationNotReady"
      (operation ++ " is " ++ op.phase.name)) : Rests settings namespaceName c r := by
  intro occasion hnow
  obtain ⟨c', r', hperforms, -⟩ := plan_performs_notReady h hnow (.inl (hlive.from_ hphase))
    hlive.uid hbound hop howner hready
  rw [commitCalls_eq_nil hsettled (unreadiness_eq_known hphase htold _)] at hperforms
  refine ⟨_, _, c', hperforms, fun call hcall => ?_, .readinessPoll⟩
  rw [List.mem_singleton.1 hcall]
  rfl

/-- A requirement that says that its pool has nothing rests while that is so. -/
theorem rests_waiting (h : c.Stores namespaceName r) (hlive : r.Live uid) (hsettled : r.Settled)
    (hphase : r.known.phase = .cacheChecking) {cache : Cache}
    (hcache : c.cache? namespaceName (Cache.nameForKey (soughtKey r r.known)) = some cache)
    (hunheld : Pool.claimedBy? uid (c.listOperations namespaceName (soughtKey r r.known)) = none)
    (hselect : Pool.select? cache (c.listOperations namespaceName (soughtKey r r.known)) = none)
    (hkey : r.known.key = some (soughtKey r r.known))
    (hfound : r.known.Says RequirementStatus.cacheFoundType .true "CacheCRFound"
      (Cache.nameForKey (soughtKey r r.known) ++ " exists"))
    (hnothing : r.known.Says RequirementStatus.acquiredType .false "NoOperationAvailable"
      (Cache.nameForKey (soughtKey r r.known) ++ " has no acquirable operation")) :
    Rests settings namespaceName c r := by
  intro occasion hnow
  obtain ⟨c', r', hperforms, -⟩ := plan_performs_waiting h hnow (hlive.from_ hphase) hlive.uid
    hcache hunheld hselect
  rw [commitCalls_eq_nil hsettled (waiting_eq_known hkey hfound hnothing _)] at hperforms
  refine ⟨_, _, c', hperforms, fun call hcall => ?_, .cachePoll⟩
  simp only [List.mem_cons, List.not_mem_nil, or_false] at hcall
  rcases hcall with rfl | rfl
  · rfl
  · rfl

/-- A requirement in a phase of deletion that is not being deleted is left alone. -/
theorem rests_leaving (h : c.Stores namespaceName r) (hlive : r.Live uid)
    (hphase : r.known.phase = .deleting ∨ r.known.phase = .deleted) :
    Rests settings namespaceName c r := by
  intro occasion hnow
  have hplan : plan settings occasion r = pure .awaitChange := by
    rcases hphase with hphase | hphase
    all_goals
      rw [plan_of_advancesFrom (hlive.from_ hphase) h.isSome_namespaceName]
      unfold advance
      rw [hphase]
  rw [hplan]
  exact ⟨_, _, c, .done, fun _ hcall => (nomatch hcall), .change⟩

end Reconcile

end WarmPool
