import WarmPool.Proofs.Course
import WarmPool.Proofs.RequirementWrite
import WarmPool.Proofs.Versions

/-!
# Runs of one reconcile at a time

Runs that are made step by step, in any surroundings that let reads show the present state: a
requirement is taken in (`Leads.takeIn`), comes to claim an operation (`Leads.claim`) and breaks off
after it has (`Leads.breakOff`), says that it is being deleted (`Leads.declareDeletion`), and
without a key comes to lose its finalizer (`Leads.removeFinalizer`).
-/

namespace WarmPool

open Reconcile

/-! ### Steps -/

/-- A run leads to this cluster with these reconciles under way, whatever states it went through. -/
def Leads (env : Surroundings) (w₀ : World) (c : Cluster) (tasks : List Task) : Prop :=
  ∃ former, Reachable env w₀ { cluster := c, former := former, tasks := tasks }

namespace Leads

variable {env : Surroundings} {w₀ : World} {c : Cluster} {t : Task} {n : String} {call : Call}
  {next : Except Error call.Reply → Plan Action}

theorem start (h : Leads env w₀ c []) (settings : Settings) {occasion : Occasion} {r : Requirement}
    (hstarts : ∀ former, env.starts { cluster := c, former := former } occasion r) :
    Leads env w₀ c [Task.start settings occasion r] := by
  obtain ⟨former, hreach⟩ := h
  exact ⟨former, hreach.step (.start settings (hstarts former))⟩

/-- The next call of the reconcile, answered from the present state. -/
theorem answer (h : Leads env w₀ c [t]) (hview : ∀ w, env.views w w.cluster)
    (hrest : t.rest = .call n call next) (fate : Fate) (hroom : c.HasRoom n call) :
    Leads env w₀ (c.deliver n c call fate).2
      [t.answered hrest (c.deliver n c call fate).1] := by
  obtain ⟨former, hreach⟩ := h
  have htasks : [t] = [] ++ t :: [] := rfl
  have hstep := Step.call (w := { cluster := c, former := former, tasks := [t] }) fate htasks hrest
    (hview _) fun _ => hroom
  exact ⟨c :: former, hreach.step hstep⟩

theorem stop (h : Leads env w₀ c [t]) : Leads env w₀ c [] := by
  obtain ⟨former, hreach⟩ := h
  have htasks : [t] = [] ++ t :: [] := rfl
  have hstep : Step env { cluster := c, former := former, tasks := [t] }
      { cluster := c, former := former, tasks := [] ++ [] } := .stop htasks
  exact ⟨former, hreach.step hstep⟩

theorem others {c' : Cluster} {tasks : List Task} (h : Leads env w₀ c tasks)
    (hothers : Others env.license c c') : Leads env w₀ c' tasks := by
  obtain ⟨former, hreach⟩ := h
  exact ⟨c :: former, hreach.step (.others hothers)⟩

end Leads

namespace Leads

variable {env : Surroundings} {w₀ : World} {c : Cluster} {settings : Settings}
  {occasion : Occasion} {r : Requirement} {namespaceName name uid : String}

/-- A reconcile comes to claim what is selected from its pool. -/
theorem claim (h : Leads env w₀ c [Task.start settings occasion r])
    (hview : ∀ w, env.views w w.cluster) (hadvances : AdvancesFrom r .cacheChecking)
    (hat : r.metadata.isAt namespaceName name = true) (huid : r.metadata.uid = some uid)
    {cache : Cache} {op : Operation} {version : String}
    (hcache : c.cache? namespaceName (Cache.nameForKey (soughtKey r r.known)) = some cache)
    (hnone : Pool.claimedBy? uid (c.listOperations namespaceName (soughtKey r r.known)) = none)
    (hselect : Pool.select? cache (c.listOperations namespaceName (soughtKey r r.known)) = some op)
    (hversion : op.metadata.resourceVersion = some version) :
    ∃ t, Leads env w₀ c [t] ∧ t.requirement = r ∧
      ∃ next, t.rest = .call t.namespaceName (.patchOwners op.name version
        (op.metadata.withOwner (holderReference r uid false))) next := by
  obtain rfl : r.namespaceName = namespaceName := Requirement.namespaceName_of_isAt hat
  obtain ⟨next, hplan, hnext⟩ := @plan_of_cacheChecking settings occasion r hadvances
    (Metadata.isSome_namespaceName hat) uid huid
  obtain ⟨next', hsearch, -, hclaim⟩ := hnext cache
  obtain ⟨next'', hclaim⟩ := hclaim _ op version hnone hselect hversion
  have hlooked := h.answer hview hplan .served fun _ heq => nomatch heq
  have hsearching :
      next (.ok (c.cache? r.namespaceName (Cache.nameForKey (soughtKey r r.known)))) =
        .call r.namespaceName (.listOperations (soughtKey r r.known)) next' := by
    rw [hcache]
    exact hsearch
  have hlisted := hlooked.answer hview hsearching .served fun _ heq => nomatch heq
  exact ⟨_, hlisted, rfl, next'', hclaim⟩

/-- A status is written, and the reconcile goes on. -/
theorem patchStatus {t : Task} {s : RequirementStatus} {next : Except Error Unit → Plan Action}
    {stored : Requirement} (h : Leads env w₀ c [t]) (hview : ∀ w, env.views w w.cluster)
    (hrest : t.rest = .call t.namespaceName (.patchStatus t.requirement.name s) next)
    (hat : t.requirement.metadata.isAt namespaceName name = true)
    (hstored : c.requirement? namespaceName name = some stored)
    (htimely : ∀ r ∈ c.requirements, r.Timely) (hs : s.Timely) :
    ∃ c' t', Leads env w₀ c' [t'] ∧
      c'.requirement? namespaceName name = some (stored.withStatus s) ∧
      (∀ r ∈ c'.requirements, r.Timely) ∧ c'.caches = c.caches ∧
      c'.operations = c.operations ∧ t'.requirement = t.requirement ∧ t'.rest = next (.ok ()) := by
  have hname : t.requirement.name = name := Metadata.anyName_of_isAt hat
  rw [hname, Task.namespaceName_eq hat] at hrest
  have hwritten := h.answer hview hrest .served fun _ heq => nomatch heq
  have hrevises : c.Revises namespaceName name (c.patchStatus namespaceName name s).2 :=
    Cluster.revises_patchStatus htimely hs
  refine ⟨_, _, hwritten, ?_, fun r hr => (hrevises.mem htimely hr).1,
    Cluster.caches_patchStatus c namespaceName name s,
    Cluster.operations_patchStatus c namespaceName name s, rfl, ?_⟩
  · exact (Cluster.requirement?_patchStatus htimely hs).trans (congrArg _ hstored)
  · exact congrArg next (Cluster.patchStatus_ok hstored s)

/-- A reconcile of a deleted requirement says so in its status. -/
theorem declareDeletion (h : Leads env w₀ c []) (settings : Settings)
    (hview : ∀ w, env.views w w.cluster)
    (hstarts : ∀ former, env.starts { cluster := c, former := former } occasion r)
    (hstored : c.requirement? namespaceName name = some r)
    (htimely : ∀ r ∈ c.requirements, r.Timely) (hdeleting : r.isDeleting = true)
    (hfinalizer : r.hasFinalizer = true) (hphase : r.known.phase = .cacheChecking) :
    ∃ c' r', Leads env w₀ c' [] ∧ c'.operations = c.operations ∧
      c'.requirement? namespaceName name = some r' ∧ (∀ r ∈ c'.requirements, r.Timely) ∧
      r'.isDeleting = true ∧ r'.hasFinalizer = true ∧ r'.known.phase = .deleting ∧
      r'.known.key = r.known.key := by
  obtain ⟨hmem, hat⟩ := Cluster.mem_of_requirement? hstored
  have hr := htimely r hmem
  obtain ⟨s, next, hplan, hsPhase, hsKey, hsConditions⟩ :=
    @plan_of_deletion settings occasion r hdeleting (Metadata.isSome_namespaceName hat) hfinalizer
      hphase
  have hs : s.Timely := by
    unfold RequirementStatus.Timely
    rw [hsConditions]
    exact hr.2
  obtain ⟨c', t, hleads, hstored', htimely', -, hoperations, -, -⟩ :=
    (h.start settings hstarts).patchStatus hview hplan hat hstored htimely hs
  refine ⟨c', _, hleads.stop, hoperations, hstored', htimely',
    (Requirement.withStatus_isDeleting hr hs).trans hdeleting,
    (Requirement.withStatus_hasFinalizer hr hs).trans hfinalizer, ?_, ?_⟩
  · rw [Requirement.withStatus_known hr hs]
    exact hsPhase
  · rw [Requirement.withStatus_known hr hs, RequirementStatus.laidOver_key, hsKey, Option.or_self]

/-- A reconcile of a deleted requirement without a key comes to take its finalizer away. -/
theorem removeFinalizer (h : Leads env w₀ c []) (settings : Settings)
    (hview : ∀ w, env.views w w.cluster)
    (hstarts : ∀ former, env.starts { cluster := c, former := former } occasion r)
    (hstored : c.requirement? namespaceName name = some r)
    (htimely : ∀ r ∈ c.requirements, r.Timely) (hdeleting : r.isDeleting = true)
    (hfinalizer : r.hasFinalizer = true) (hphase : r.known.phase = .deleting)
    (hkey : r.known.key = none) :
    ∃ c' t, Leads env w₀ c' [t] ∧ c'.operations = c.operations ∧ t.requirement = r ∧
      ∃ next,
        t.rest = .call t.namespaceName (.removeFinalizer r.name requirementFinalizer) next := by
  obtain ⟨hmem, hat⟩ := Cluster.mem_of_requirement? hstored
  obtain ⟨s, next, hplan, hsConditions, next', hnext⟩ :=
    @plan_of_release settings occasion r hdeleting (Metadata.isSome_namespaceName hat) hfinalizer
      hphase hkey
  have hs : s.Timely := by
    unfold RequirementStatus.Timely
    rw [hsConditions]
    exact (htimely r hmem).2
  obtain ⟨c', t, hleads, -, -, -, hoperations, hsame, hrest⟩ :=
    (h.start settings hstarts).patchStatus hview hplan hat hstored htimely hs
  have hnamespace : r.namespaceName = t.namespaceName :=
    congrArg Requirement.namespaceName hsame.symm
  rw [hnamespace] at hnext
  exact ⟨c', t, hleads, hoperations, hsame, next', hrest.trans hnext⟩

/-- The first reconcile of a requirement with caching gives it our finalizer, a key and a phase. -/
theorem takeIn (h : Leads env w₀ c []) (settings : Settings)
    (hview : ∀ w, env.views w w.cluster)
    (hstarts : ∀ former, env.starts { cluster := c, former := former } occasion r)
    (hnow : occasion.now.Valid) (hstored : c.requirement? namespaceName name = some r)
    (htimely : ∀ r ∈ c.requirements, r.Timely) (hadvances : AdvancesFrom r .initial)
    (hfinalizer : r.hasFinalizer = false) (hcaching : r.spec.enableCache = true) :
    ∃ c' r', Leads env w₀ c' [] ∧ c'.caches = c.caches ∧ c'.operations = c.operations ∧
      c'.requirement? namespaceName name = some r' ∧ AdvancesFrom r' .cacheChecking ∧
      r'.metadata.uid = r.metadata.uid ∧ r'.known.key = some r.spec.template.key := by
  obtain ⟨hmem, hat⟩ := Cluster.mem_of_requirement? hstored
  obtain ⟨next, hplan, s, next', hnext, hphase, hkey, hs⟩ :=
    @plan_of_initial settings occasion r hadvances (Metadata.isSome_namespaceName hat) hfinalizer
      hcaching
  have hsTimely := hs (htimely r hmem).2 hnow
  obtain rfl : r.name = name := Metadata.anyName_of_isAt hat
  obtain rfl : r.namespaceName = namespaceName := Requirement.namespaceName_of_isAt hat
  obtain ⟨hreply, hcaches, hoperations⟩ := Cluster.addFinalizer_ok hstored requirementFinalizer
  have hrevises : c.Revises r.namespaceName r.name
      (c.addFinalizer r.namespaceName r.name requirementFinalizer).2 :=
    Cluster.revises_addFinalizer htimely requirementFinalizer
  have hadded := (h.start settings hstarts).answer hview hplan .served fun _ heq => nomatch heq
  -- The status is written to the requirement as the finalizer left it.
  let r₁ := r.takeFinalizer requirementFinalizer
  have htouches : r.Touches r₁ := r.touches_takeFinalizer requirementFinalizer
  have hstored₁ : (c.addFinalizer r.namespaceName r.name requirementFinalizer).2.requirement?
      r.namespaceName r.name = some r₁ :=
    (Cluster.requirement?_addFinalizer c r.namespaceName r.name requirementFinalizer).trans
      (congrArg (Option.map _) hstored)
  obtain ⟨c', t, hleads, hstored', -, hcaches', hoperations', -, -⟩ :=
    hadded.patchStatus hview ((congrArg next hreply).trans hnext) hat hstored₁
      (fun r hr => (hrevises.mem htimely hr).1) hsTimely
  have hr₁ := htouches.timely (htimely r hmem)
  refine ⟨c', _, hleads.stop, hcaches'.trans hcaches, hoperations'.trans hoperations, hstored',
    ⟨?_, ?_, ?_⟩, (Requirement.withStatus_uid hr₁ hsTimely).trans htouches.uid, ?_⟩
  · rw [Requirement.withStatus_isDeleting hr₁ hsTimely, Requirement.isDeleting_takeFinalizer]
    exact hadvances.1
  · rw [Requirement.withStatus_spec hr₁ hsTimely, htouches.spec]
    exact hadvances.2.1
  · rw [Requirement.withStatus_known hr₁ hsTimely]
    exact hphase
  · rw [Requirement.withStatus_known hr₁ hsTimely, RequirementStatus.laidOver_key, hkey]
    rfl

/-- A claim takes effect, and its reconcile breaks off before the status says so. -/
theorem breakOff {t : Task} {op : Operation} {opName version : String}
    {owners : List OwnerReference} {next : Except Error Unit → Plan Action} (h : Leads env w₀ c [t])
    (hview : ∀ w, env.views w w.cluster)
    (hrest : t.rest = .call t.namespaceName (.patchOwners opName version owners) next)
    (hat : t.requirement.metadata.isAt namespaceName name = true)
    (hop : c.operation? namespaceName opName = some op)
    (hversion : op.metadata.resourceVersion = some version) :
    ∃ c', Leads env w₀ c' [] ∧ c'.requirements = c.requirements ∧ c'.caches = c.caches ∧
      ∃ op' ∈ c'.operations, op'.metadata.namespaceName = some namespaceName ∧
        op'.metadata.owners = owners := by
  rw [Task.namespaceName_eq hat] at hrest
  have hclaimed := h.answer hview hrest .served fun _ heq => nomatch heq
  obtain ⟨old, -, -, hnew⟩ := Cluster.patchOwners_ok (Cluster.patchOwners_stored hop hversion)
  obtain ⟨hmem, hopAt⟩ := Cluster.mem_of_operation? hnew
  have hsame : (c.patchOwners namespaceName opName version owners).2.requirements =
      c.requirements ∧ (c.patchOwners namespaceName opName version owners).2.caches = c.caches := by
    rw [Cluster.patchOwners_eq, hop]
    simp only [hversion, ↓reduceIte]
    exact ⟨rfl, rfl⟩
  exact ⟨_, hclaimed.stop, hsame.1, hsame.2, _, hmem, Metadata.namespaceName_of_isAt hopAt, rfl⟩

end Leads

end WarmPool
