import WarmPool.Proofs.History
import WarmPool.Proofs.Refusal

/-!
# Ready for a reason

After a reconcile in which nothing goes wrong, a requirement with a valid specification is ready
only if its operation is stored, ready and refers to it (`ready_after_reconcile`). A requirement
whose specification became wrong is only told so: it stays as ready as it was, even when its
operation is gone (`ready_without_operation`).
-/

namespace WarmPool

open Reconcile

namespace Cluster

variable {c : Cluster} {namespaceName : String} {r : Requirement}

/-- The operation to which a requirement is bound is stored, ready and refers to it. -/
def Serves (c : Cluster) (namespaceName : String) (r : Requirement) : Prop :=
  ∃ operation op uid, r.known.operationName = some operation ∧
    c.operation? namespaceName operation = some op ∧ op.isReady = true ∧
    r.metadata.uid = some uid ∧ ∃ o ∈ op.metadata.owners, o.uid = uid

end Cluster

/-! ### Requirements that do not look at an operation -/

/-- The requirement looks at its operation when it is reconciled. -/
def Requirement.Follows (r : Requirement) : Prop :=
  (AdvancesFrom r .operating ∨ AdvancesFrom r .ready) ∧
    ∃ operation uid, r.known.operationName = some operation ∧ r.metadata.uid = some uid

namespace Reconcile

variable {settings : Settings} {occasion : Occasion} {namespaceName : String}
  {c : Cluster} {q r : Requirement} {past : List Answered} {s : RequirementStatus}

/-- A requirement that does not look at its operation is not reported ready. -/
theorem Reports.unready (h : Reports occasion q past s) (hvalid : q.spec.validate = .ok ())
    (hfollows : ¬ q.Follows) : s.phase ≠ .ready := by
  intro hphase
  rcases h.of_ready hphase with ⟨hinvalid, -⟩ | ⟨hfrom, operation, op, hbound⟩
  · exact hinvalid hvalid
  · obtain ⟨uid, huid, -⟩ := hbound.referred
    exact hfollows ⟨hfrom, operation, uid, hbound.bound, huid⟩

/-- A reconcile of a requirement that does not look at its operation does not make it ready. -/
theorem Outcome.unready (h : Outcome occasion q r) (hvalid : q.spec.validate = .ok ())
    (hfollows : ¬ q.Follows) (hunready : q.known.phase ≠ .ready) : r.known.phase ≠ .ready := by
  cases h with
  | same hsame => rwa [hsame]
  | reported hreports hknown =>
    rw [hknown]
    exact hreports.unready hvalid hfollows

/-! ### Requirements that look at their operation -/

/-- After a look at its operation, a requirement is ready only if that one serves it. -/
theorem serves_of_follows (h : c.Stores namespaceName r) (hnow : occasion.now.Valid)
    (hfollows : r.Follows) :
    ∃ action calls c' r', (plan settings occasion r).Performs namespaceName c action calls c' ∧
      c'.Stores namespaceName r' ∧ r.Alike r' ∧
      (r'.known.phase = .ready → c'.Serves namespaceName r') := by
  obtain ⟨hfrom, operation, uid, hbound, huid⟩ := hfollows
  by_cases hlost : ∀ op, c.operation? namespaceName operation = some op →
      op.metadata.findOwner? uid = none
  · obtain ⟨message, c', r', hperforms, hreported⟩ :=
      plan_performs_lost h hnow hfrom huid hbound hlost
    refine ⟨_, _, c', r', hperforms, hreported.stores, hreported.alike, fun hready => ?_⟩
    rw [hreported.known] at hready
    exact absurd hready (coming_ne r (by simp) (by simp))
  · push Not at hlost
    obtain ⟨op, hop, howner⟩ := hlost
    have howner := Option.isSome_iff_ne_none.2 howner
    cases hready : op.isReady with
    | false =>
      obtain ⟨c', r', hperforms, hreported⟩ :=
        plan_performs_notReady h hnow hfrom huid hbound hop howner hready
      refine ⟨_, _, c', r', hperforms, hreported.stores, hreported.alike, fun hphase => ?_⟩
      rw [hreported.known] at hphase
      cases hphase
    | true =>
      obtain ⟨c', r', hperforms, hreported⟩ :=
        plan_performs_ready h hnow hfrom huid hbound hop howner hready
      refine ⟨_, _, c', r', hperforms, hreported.stores, hreported.alike, fun _ => ?_⟩
      obtain ⟨o, ho⟩ := Option.isSome_iff_exists.1 howner
      refine ⟨operation, op, uid, ?_, hreported.operation?.trans hop, hready,
        hreported.alike.uid.trans huid, o, List.mem_of_find?_eq_some ho,
        by simpa using List.find?_some ho⟩
      rw [hreported.known]
      exact hbound

end Reconcile

/-! ### Every reconcile -/

section

variable {occasion : Occasion} {namespaceName name : String} {c : Cluster} {r r' : Requirement}

/-- A reconcile of a proper requirement leaves it ready only if its operation serves it. -/
theorem Requirement.Proper.serves_of_ready (hr : r.Proper) (h : c.Stores namespaceName r)
    (hkept : r.isDeleting = false) (hvalid : r.spec.validate = .ok ())
    (hnow : occasion.now.Valid) (settings : Settings) :
    ∃ r', (Rehearsal.reconcile settings occasion (.calm c) r).2.2.cluster.Stores namespaceName r' ∧
      r.Alike r' ∧ (r'.known.phase = .ready →
        (Rehearsal.reconcile settings occasion (.calm c) r).2.2.cluster.Serves namespaceName
          r') := by
  by_cases hfollows : r.Follows
  · obtain ⟨action, calls, c', r', hperforms, hserves⟩ := serves_of_follows h hnow hfollows
    obtain ⟨trace, s, hreconcile, -, rfl⟩ := Rehearsal.reconcile_of_performs hperforms
    rw [hreconcile]
    exact ⟨r', hserves⟩
  · -- It is not ready before, since it would look at its operation then.
    have hunready : r.known.phase ≠ .ready := by
      intro hready
      obtain ⟨operation, hbound⟩ := Option.isSome_iff_exists.1 (hr.coherent.bound hready)
      obtain ⟨uid, huid⟩ := Option.isSome_iff_exists.1 (hr.identified hready)
      exact hfollows ⟨.inr ⟨hkept, hvalid, hready⟩, operation, uid, hbound, huid⟩
    obtain ⟨r', hafter, halike, houtcome⟩ := exists_outcome h hkept hnow settings
    have hstill := houtcome.unready hvalid hfollows hunready
    exact ⟨r', hafter, halike, fun hready => absurd hready hstill⟩

/-- A reconcile of a requirement with a wrong specification says so in its status, and no more. -/
theorem Cluster.Stores.reconcile_invalid (h : c.Stores namespaceName r)
    (hkept : r.isDeleting = false) {e : Error} (hspec : r.spec.validate = .error e)
    (hnow : occasion.now.Valid) (settings : Settings) :
    ∃ trace s r', Rehearsal.reconcile settings occasion (.calm c) r =
        (.ok .awaitChange, trace, s) ∧
      s.cluster.operations = c.operations ∧ s.cluster.caches = c.caches ∧
      s.cluster.Stores namespaceName r' ∧ r.Alike r' ∧
      r'.known.phase = r.known.phase ∧ r'.known.operationName = r.known.operationName ∧
      ∃ status, Refusal r e status ∧ r'.known = status.laidOver r.known := by
  obtain ⟨c', r', hperforms, hreported⟩ := plan_performs_invalid h hnow hkept hspec
  obtain ⟨trace, s, hreconcile, -, rfl⟩ := Rehearsal.reconcile_of_performs hperforms
  refine ⟨trace, s, r', hreconcile, hreported.operations, hreported.caches, hreported.stores,
    hreported.alike, ?_, ?_, _, refusal_refused r e occasion.now, hreported.known⟩
  · rw [hreported.known]
    rfl
  · rw [hreported.known]
    rfl

/--
Whatever life a requirement had, after a reconcile in which nothing goes wrong it is ready only if
its operation is stored, ready and refers to it. With a wrong specification, that is what its status
says, for its generation; phase, key, operation and all else are left as they were.
-/
theorem ready_after_reconcile {r₀ : Requirement} (hnew : r₀.status = none) (htimely : r₀.Timely)
    {l : Lifetime} (hruns : Lifetime.Runs (.created r₀) l) (hlife : l.stored = some r)
    (hkept : r.isDeleting = false) (hstored : c.requirement? namespaceName name = some r)
    (hinstants : ∀ x ∈ c.requirements, x.Timely) (hnow : occasion.now.Valid)
    (settings : Settings) :
    ∃ r', (Rehearsal.reconcile settings occasion (.calm c) r).2.2.cluster.requirement?
        namespaceName name = some r' ∧
      (r.spec.validate = .ok () → r'.known.phase = .ready →
        (Rehearsal.reconcile settings occasion (.calm c) r).2.2.cluster.Serves namespaceName r') ∧
      ∀ e, r.spec.validate = .error e →
        (Rehearsal.reconcile settings occasion (.calm c) r).2.2.cluster.operations = c.operations ∧
        (Rehearsal.reconcile settings occasion (.calm c) r).2.2.cluster.caches = c.caches ∧
        r.Alike r' ∧ r'.known.phase = r.known.phase ∧
        r'.known.operationName = r.known.operationName ∧
        ∃ status, Refusal r e status ∧ r'.known = status.laidOver r.known := by
  have hproper : r.Proper :=
    ((Lifetime.proper_created hnew htimely).runs hruns).1.stored r hlife
  have hstores : c.Stores namespaceName r := .of_stored hstored hinstants
  have hat := (Cluster.mem_of_requirement? hstored).2
  cases hspec : r.spec.validate with
  | ok u =>
    obtain ⟨r', hafter, halike, hserves⟩ :=
      hproper.serves_of_ready hstores hkept hspec hnow settings
    exact ⟨r', hafter.of_alike halike hat, fun _ => hserves, nofun⟩
  | error e =>
    obtain ⟨trace, s, r', hreconcile, hoperations, hcaches, hafter, halike, hsame⟩ :=
      hstores.reconcile_invalid hkept hspec hnow settings
    rw [hreconcile]
    refine ⟨r', hafter.of_alike halike hat, nofun, ?_⟩
    rintro _ ⟨⟩
    exact ⟨hoperations, hcaches, halike, hsame⟩

end

/-- The sample, once it is ready, is looked at again while its operation is there. -/
theorem ready_after_reconcile_sample : ∃ r c, sampleRequirement.status = none ∧
    Lifetime.Runs (.created sampleRequirement) { stored := some r } ∧ r.known.phase = .ready ∧
    r.spec.validate = .ok () ∧ c.requirement? "dev" "sample" = some r ∧
    c.operations = [Lifetime.heldOperation] ∧ ∃ r',
      (Rehearsal.reconcile {} sampleOccasion (.calm c) r).2.2.cluster.requirement? "dev" "sample" =
        some r' ∧
      (r'.known.phase = .ready →
        (Rehearsal.reconcile {} sampleOccasion (.calm c) r).2.2.cluster.Serves "dev" r') := by
  obtain ⟨r, hruns, halike, hready, -⟩ := Lifetime.sample_ready
  let c : Cluster := { requirements := [r], operations := [Lifetime.heldOperation] }
  have hvalid : r.spec.validate = .ok () := halike.spec ▸ validate_sampleRequirement
  have hstored : c.requirement? "dev" "sample" = some r :=
    List.find?_cons_of_pos (halike.isAt rfl)
  have hinstants : ∀ x ∈ c.requirements, x.Timely := by
    intro x hx
    rw [List.mem_singleton.1 hx]
    exact halike.timely sampleRequirement_timely
  obtain ⟨r', hafter, hserves, -⟩ := ready_after_reconcile rfl sampleRequirement_timely hruns rfl
    halike.deleting hstored hinstants (show sampleOccasion.now.Valid by decide) {}
  exact ⟨r, c, rfl, hruns, hready, hvalid, hstored, rfl, r', hafter, hserves hvalid⟩

/-! ### Ready without an operation -/

/-- A requirement whose specification was edited into a wrong one. -/
def misedited (r : Requirement) : Requirement := { r with spec := { template := {} } }

theorem misedited_invalid (r : Requirement) : ∃ e, (misedited r).spec.validate = .error e := by
  show ∃ e, RequirementSpec.validate { template := {} } = .error e
  exact ⟨_, rfl⟩

/--
A requirement that was ready, whose specification then became wrong and whose operation was removed:
after the next reconcile, in which nothing goes wrong, it is ready still, and bound to nothing.
-/
theorem ready_without_operation : ∃ r₀ r c trace s, ∃ r' : Requirement,
    r₀.status = none ∧ r₀.Timely ∧ Lifetime.Runs (.created r₀) { stored := some r } ∧
    r.isDeleting = false ∧ c.requirement? "dev" "sample" = some r ∧
    (∀ x ∈ c.requirements, x.Timely) ∧
    Rehearsal.reconcile {} sampleOccasion (.calm c) r = (.ok .awaitChange, trace, s) ∧
    s.cluster.requirement? "dev" "sample" = some r' ∧ r'.known.phase = .ready ∧
    r'.known.operationName = some "warm" ∧ s.cluster.operation? "dev" "warm" = none := by
  obtain ⟨q, hruns, halike, hready, hbound⟩ := Lifetime.sample_ready
  let r := misedited q
  let c : Cluster := { requirements := [r] }
  have hnow : sampleOccasion.now.Valid := by decide
  have hq : q.Timely := halike.timely sampleRequirement_timely
  have hedits : q.Edits r := ⟨rfl, rfl, rfl, id, id⟩
  have hat : r.metadata.isAt "dev" "sample" = true := halike.isAt rfl
  have hstored : c.requirement? "dev" "sample" = some r := List.find?_cons_of_pos hat
  have hinstants : ∀ x ∈ c.requirements, x.Timely := by
    intro x hx
    rw [List.mem_singleton.1 hx]
    exact hedits.timely hq
  have hstores : c.Stores "dev" r := .of_stored hstored hinstants
  obtain ⟨e, hspec⟩ := misedited_invalid q
  obtain ⟨trace, s, r', hreconcile, hoperations, -, hafter, halike', hphase, hoperation, -⟩ :=
    hstores.reconcile_invalid halike.deleting hspec hnow {}
  refine ⟨_, r, c, trace, s, r', rfl, sampleRequirement_timely,
    hruns.tail (.edit rfl hedits), halike.deleting, hstored, hinstants, hreconcile,
    hafter.of_alike halike' hat, hphase.trans hready, hoperation.trans hbound, ?_⟩
  unfold Cluster.operation?
  rw [hoperations]
  rfl

end WarmPool
