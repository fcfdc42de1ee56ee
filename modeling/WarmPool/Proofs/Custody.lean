import WarmPool.Proofs.Custody.Invariant
import WarmPool.Proofs.Stock

/-!
# No claim outlives its requirement

Requirements that are created without a status and without our finalizer never strand an operation:
whoever holds one is still stored and still has the finalizer, whichever calls fail, whichever
reconciles are cut off and whenever deletion is asked for (`guarded_claims`). This is what the
invariant of each requirement (`Claimant.Custody`) says of all of them.
-/

namespace WarmPool

open Reconcile

namespace Cluster

/-- Whether a requirement with this UID is stored. -/
def Knows (c : Cluster) (uid : String) : Prop := ∃ r ∈ c.requirements, r.metadata.uid = some uid

/-- Requirements as they are created, each with a place and a UID of its own that is new. -/
structure Fresh (c : Cluster) : Prop where
  orderly : c.Orderly
  timely : ∀ r ∈ c.requirements, r.Timely
  status : ∀ r ∈ c.requirements, r.status = none
  finalizer : ∀ r ∈ c.requirements, r.hasFinalizer = false
  placed : ∀ r ∈ c.requirements, ∃ namespaceName name,
    r.metadata.isAt namespaceName name = true
  apart : (c.requirements.map fun r => r.metadata.place).Nodup
  distinct : (c.requirements.map fun r => r.metadata.uid).Nodup
  identified : ∀ r ∈ c.requirements, r.metadata.uid.isSome
  unclaimed : ∀ op ∈ c.operations, ∀ o ∈ op.metadata.owners, ¬ c.Knows o.uid

variable {c : Cluster}

/-- A requirement without a status has nothing to answer for. -/
theorem Fresh.sound (h : c.Fresh) {r : Requirement} (hr : r ∈ c.requirements) : r.Sound := by
  have hinitial : r.known.phase = .initial := by
    rw [Requirement.known_of_new (h.status r hr)]
  intro hphase
  simp [hinitial] at hphase

theorem Fresh.regular (h : c.Fresh) : World.Regular { cluster := c } :=
  World.regular_of_orderly h.orderly h.timely

/-- Every known UID is that of a claimant whose invariant holds at first. -/
theorem Fresh.custody (h : c.Fresh) {uid : String} (huid : c.Knows uid) :
    ∃ x : Claimant, x.uid = uid ∧ x.Custody { cluster := c } := by
  obtain ⟨r, hr, huid⟩ := huid
  obtain ⟨namespaceName, name, hat⟩ := h.placed r hr
  refine ⟨⟨namespaceName, name, uid⟩, rfl, Claimant.custody_of_unclaimed ?_ ?_ ?_⟩
  · intro r' hr' huid'
    have hsame : r' = r := List.inj_on_of_nodup_map h.distinct hr' hr (huid'.trans huid.symm)
    rw [hsame]
    exact hat
  · intro r' hr'
    obtain ⟨hmem, hat'⟩ := mem_of_requirement? hr'
    have hsame : r' = r := List.inj_on_of_nodup_map h.apart hmem hr
      ((Metadata.isAt_iff.1 hat').trans (Metadata.isAt_iff.1 hat).symm)
    subst hsame
    exact ⟨huid, h.sound hr⟩
  · intro op hop
    rw [Bool.eq_false_iff]
    intro hclaimed
    obtain ⟨o, ho, -, houid, -⟩ := Pool.isClaimedBy_iff.1 hclaimed
    exact h.unclaimed op hop o ho ⟨r, hr, houid ▸ huid⟩

end Cluster

/-! ### Where references come from -/

/-- The requirements stored and reconciled have known UIDs. -/
structure World.Familiar (known : String → Prop) (w : World) : Prop where
  stored : ∀ r ∈ w.cluster.requirements, ∀ uid, r.metadata.uid = some uid → known uid
  tasks : ∀ t ∈ w.tasks, ∀ uid, t.requirement.metadata.uid = some uid → known uid

theorem World.Familiar.step {known ours : String → Prop} {w w' : World} (hregular : w.Regular)
    (h : w.Familiar known) (hstep : Step (custodial ours) w w') : w'.Familiar known := by
  -- No step gives a stored requirement another UID, and a reconcile keeps its requirement.
  have hkept {c : Cluster} (hknown : ∀ r' ∈ c.requirements, ∃ r ∈ w.cluster.requirements,
      r'.metadata.place = r.metadata.place ∧ r'.metadata.uid = r.metadata.uid) :
      ∀ r ∈ c.requirements, ∀ uid, r.metadata.uid = some uid → known uid := by
    intro r' hr' uid huid
    obtain ⟨r, hr, -, hsame⟩ := hknown r' hr'
    exact h.stored r hr uid (hsame ▸ huid)
  have hadvance {before after : List Task} {t t' : Task} (htasks : w.tasks = before ++ t :: after)
      (hrequirement : t'.requirement = t.requirement) :
      ∀ u ∈ before ++ t' :: after, ∀ uid, u.requirement.metadata.uid = some uid → known uid := by
    intro u hu
    rcases World.mem_tasks_of_ne htasks hu with rfl | hu
    · rw [hrequirement]
      exact h.tasks t (World.mem_tasks htasks)
    · exact h.tasks u hu
  cases hstep with
  | start settings hstart =>
    obtain ⟨-, _, _, hstored, -⟩ := hstart
    refine ⟨h.stored, fun t ht => ?_⟩
    rcases List.mem_cons.1 ht with rfl | ht
    · exact h.stored _ (Cluster.mem_of_requirement? hstored).1
    · exact h.tasks t ht
  | event htasks _ => exact ⟨h.stored, hadvance htasks rfl⟩
  | measure htasks _ => exact ⟨h.stored, hadvance htasks rfl⟩
  | call fate htasks hrest _ _ =>
    obtain rfl := Task.namespaceName_of_call hrest
    exact ⟨hkept (Claimant.known_of_call hregular (World.mem_tasks htasks) hrest _ fate),
      hadvance htasks rfl⟩
  | stop htasks =>
    exact ⟨h.stored, fun t ht => h.tasks t ((World.sublist_tasks htasks).subset ht)⟩
  | others hothers => exact ⟨hkept (Claimant.known_of_others hothers), h.tasks⟩

/-- The references that a call adds to an operation are to its requirement. -/
theorem World.Consistent.reference_cases {w : World} (h : w.Consistent) {t : Task}
    (ht : t ∈ w.tasks) {call : Call} {next : Except Error call.Reply → Plan Action}
    (hrest : t.rest = .call t.namespaceName call next) {view : Cluster} {fate : Fate}
    (hroom : (∀ e, fate ≠ .lost e) → w.cluster.HasRoom t.namespaceName call) :
    ∀ op' ∈ (w.cluster.deliver t.namespaceName view call fate).2.operations,
      ∀ o ∈ op'.metadata.owners,
        (∃ op ∈ w.cluster.operations, op.metadata.place = op'.metadata.place ∧
          o ∈ op.metadata.owners) ∨
        ∃ uid controller, t.requirement.metadata.uid = some uid ∧
          o = holderReference t.requirement uid controller := by
  intro op' hop' o ho
  rcases (h.call_changes ht hrest view hroom).mem_cases hop' with
    hop | ⟨-, ⟨op, hop, hplace, -, hreplaces⟩ | ⟨uid, huid, howners⟩⟩
  · exact .inl ⟨op', hop, rfl, ho⟩
  · cases hreplaces with
    | claim _ huid _ _ _ _ hnew =>
      subst hnew
      rcases List.mem_append.1 ho with ho | ho
      · exact .inl ⟨op, hop, hplace, (List.mem_filter.1 ho).1⟩
      · exact .inr ⟨_, false, huid, List.mem_singleton.1 ho⟩
    | release _ _ hnew =>
      subst hnew
      exact .inl ⟨op, hop, hplace, (List.mem_filter.1 ho).1⟩
  · rw [howners, List.mem_singleton] at ho
    exact .inr ⟨uid, true, huid, ho⟩

/-! ### Who holds an operation -/

/-- Whether the owner with this UID is among those of an operation without controlling it. -/
def Operation.IsHeld (op : Operation) (uid : String) : Prop :=
  ∃ o ∈ op.metadata.owners, o.uid = uid ∧ o.isController = false

instance (op : Operation) (uid : String) : Decidable (op.IsHeld uid) :=
  inferInstanceAs (Decidable (∃ o ∈ op.metadata.owners, o.uid = uid ∧ o.isController = false))

theorem Pool.isHeld_of_isClaimedBy {uid : String} {op : Operation}
    (h : isClaimedBy uid op = true) : op.IsHeld uid := by
  obtain ⟨o, ho, -, huid, hcontroller⟩ := isClaimedBy_iff.1 h
  exact ⟨o, ho, huid, hcontroller⟩

/-- References to this UID that do not control are to a requirement. -/
def Cluster.HeldAsRequirement (c : Cluster) (uid : String) : Prop :=
  ∀ op ∈ c.operations, ∀ o ∈ op.metadata.owners, o.uid = uid → o.isController = false →
    o.kind = Kind.requirement.name

theorem Cluster.HeldAsRequirement.isClaimedBy {c : Cluster} {uid : String}
    (h : c.HeldAsRequirement uid) {op : Operation} (hop : op ∈ c.operations)
    (hheld : op.IsHeld uid) : Pool.isClaimedBy uid op = true := by
  obtain ⟨o, ho, huid, hcontroller⟩ := hheld
  exact Pool.isClaimedBy_iff.2 ⟨o, ho, h op hop o ho huid hcontroller, huid, hcontroller⟩

theorem Cluster.HeldAsRequirement.step {ours : String → Prop} {uid : String} {w w' : World}
    (hours : ours uid) (hregular : w.Regular) (h : w.cluster.HeldAsRequirement uid)
    (hstep : Step (custodial ours) w w') : w'.cluster.HeldAsRequirement uid := by
  cases hstep with
  | start _ _ => exact h
  | event _ _ => exact h
  | measure _ _ => exact h
  | stop _ => exact h
  | call fate htasks hrest _ hroom =>
    obtain rfl := Task.namespaceName_of_call hrest
    intro op' hop' o ho huid hcontroller
    have hconsistent := hregular.consistent
    rcases hconsistent.reference_cases (World.mem_tasks htasks) hrest hroom op' hop' o ho with
      ⟨op, hop, -, ho⟩ | ⟨uid', controller, -, rfl⟩
    · exact h op hop o ho huid hcontroller
    · rfl
  | others hothers =>
    intro op' hop' o ho huid hcontroller
    rcases (Cluster.others_changes hothers).mem_cases hop' with
      hop | ⟨-, ⟨op, hop, -, new, version, ⟨-, howners⟩, rfl⟩ | ⟨new, version, howners, rfl⟩⟩
    · exact h op' hop o ho huid hcontroller
    · exact h op hop o (howners o ho (huid ▸ hours)) huid hcontroller
    · exact absurd (huid ▸ hours) (howners o ho)

theorem Cluster.HeldAsRequirement.reachable {ours : String → Prop} {uid : String} {w w' : World}
    (hours : ours uid) (hregular : w.Regular) (h : w.cluster.HeldAsRequirement uid)
    (hrun : Reachable (custodial ours) w w') : w'.cluster.HeldAsRequirement uid :=
  (hrun.induction_of (P := fun w => w.Regular ∧ w.cluster.HeldAsRequirement uid) ⟨hregular, h⟩
    fun _ _ hw hstep => ⟨hw.1.step hstep, hw.2.step hours hw.1 hstep⟩).2

/-- Nobody holds anything as a requirement that is created just now. -/
theorem Cluster.Fresh.heldAsRequirement {c : Cluster} (hc : c.Fresh) {uid : String}
    (huid : c.Knows uid) : c.HeldAsRequirement uid := fun op hop o ho hoUid =>
  absurd (hoUid ▸ huid) (hc.unclaimed op hop o ho)

/-! ### A requirement that holds an operation -/

/-- The key of the sample. -/
def sampleKey : String := sampleRequirement.spec.template.key

/-- A stocked pool for the sample, as it is created. -/
def sampleCluster : Cluster := Cluster.stocked "dev" sampleKey sampleRequirement

theorem sampleCluster_knows : sampleCluster.Knows "sample" :=
  ⟨sampleRequirement, List.mem_cons_self, rfl⟩

theorem sampleCluster_fresh : sampleCluster.Fresh := by
  have hone {r : Requirement} (hr : r ∈ sampleCluster.requirements) : r = sampleRequirement :=
    List.mem_singleton.1 hr
  refine ⟨Cluster.stocked_orderly, fun r hr => ?_, fun r hr => ?_, fun r hr => ?_, fun r hr => ?_,
    List.nodup_singleton _, List.nodup_singleton _, fun r hr => ?_, fun op hop o ho => ?_⟩
  · rw [hone hr]
    exact sampleRequirement_timely
  · rw [hone hr]
    rfl
  · rw [hone hr]
    rfl
  · rw [hone hr]
    exact ⟨"dev", "sample", rfl⟩
  · rw [hone hr]
    rfl
  · rintro ⟨r, hr, huid⟩
    rw [hone hr] at huid
    rw [List.mem_singleton.1 hop] at ho
    rw [List.mem_singleton.1 ho] at huid
    exact absurd (Option.some.inj huid) (by decide)

/--
The sample comes to hold the operation of its pool while it still searches, in any surroundings in
which reads may show the present state and the stored requirement may be reconciled.
-/
theorem Leads.sampleHolds {env : Surroundings} (hview : ∀ w, env.views w w.cluster)
    (hstarts : ∀ {c r}, c.requirement? "dev" "sample" = some r → ∀ former,
      env.starts { cluster := c, former := former } sampleOccasion r) :
    ∃ c former r, Reachable env { cluster := sampleCluster }
        { cluster := c, former := former } ∧
      c.requirement? "dev" "sample" = some r ∧ AdvancesFrom r .cacheChecking ∧
      r.metadata.uid = some "sample" ∧
      c.cache? "dev" (Cache.nameForKey (soughtKey r r.known)) =
        some (warmCache "dev" sampleKey) ∧
      ∃ op ∈ c.operations, holderReference r "sample" false ∈ op.metadata.owners := by
  have hnow : sampleOccasion.now.Valid := by decide
  have hstored : sampleCluster.requirement? "dev" "sample" = some sampleRequirement := rfl
  have hfirst : Leads env { cluster := sampleCluster } sampleCluster [] := ⟨[], .refl⟩
  -- It is taken in first, and holds the operation after a second reconcile.
  obtain ⟨c₁, r, h₁, hcaches, hoperations, hstored₁, hadvances, huid, hkey⟩ :=
    hfirst.takeIn {} hview (hstarts hstored) hnow hstored sampleCluster_fresh.timely
      ⟨rfl, validate_sampleRequirement, rfl⟩ rfl rfl
  have hsought : soughtKey r r.known = sampleKey := by
    unfold soughtKey
    rw [hkey]
    rfl
  have hstock : c₁.Stocked "dev" sampleKey := ⟨hcaches, hoperations⟩
  obtain ⟨c₂, ⟨former, hreach⟩, hrequirements, hcaches₂, op, hop, -, hmem⟩ :=
    h₁.holdStock {} hview (hstarts hstored₁) hstock hadvances
      (Cluster.mem_of_requirement? hstored₁).2 huid hsought
  refine ⟨c₂, former, r, hreach, ?_, hadvances, huid, ?_, op, hop, hmem⟩
  · exact (congrArg (List.find? _) hrequirements).trans hstored₁
  · rw [hsought]
    exact (congrArg (List.find? _) hcaches₂).trans hstock.cache?

/-- It does so as well if nothing disturbs what is known of it. -/
theorem sample_holds :
    ∃ c former r, Reachable (custodial sampleCluster.Knows) { cluster := sampleCluster }
        { cluster := c, former := former } ∧
      c.requirement? "dev" "sample" = some r ∧ AdvancesFrom r .cacheChecking ∧
      r.metadata.uid = some "sample" ∧
      c.cache? "dev" (Cache.nameForKey (soughtKey r r.known)) =
        some (warmCache "dev" sampleKey) ∧
      ∃ op ∈ c.operations, holderReference r "sample" false ∈ op.metadata.owners :=
  Leads.sampleHolds (fun _ => rfl) fun hstored _ =>
    ⟨by decide, "dev", "sample", hstored, fun _ ht => (nomatch ht)⟩

/-! ### The whole run -/

/--
From requirements as they are created, whatever fails, is cut off or is deleted: a requirement that
is among the owners of an operation without controlling it is still stored and has our finalizer.
This is so of all references that reconciles add, since they are to requirements known at first.
-/
theorem guarded_claims {c : Cluster} (hc : c.Fresh) {w : World}
    (h : Reachable (custodial c.Knows) { cluster := c } w) :
    (∀ op ∈ w.cluster.operations, ∀ o ∈ op.metadata.owners, o.kind = Kind.requirement.name →
      o.isController = false → c.Knows o.uid →
        ∃ r ∈ w.cluster.requirements, r.metadata.uid = some o.uid ∧ r.hasFinalizer = true) ∧
    ∀ t ∈ w.tasks, ∀ n call next fate, t.rest = .call n call next →
      ((∀ e, fate ≠ .lost e) → w.cluster.HasRoom n call) →
      ∀ op' ∈ (w.cluster.deliver n w.cluster call fate).2.operations,
        ∀ o ∈ op'.metadata.owners,
          (∃ op ∈ w.cluster.operations, op.metadata.place = op'.metadata.place ∧
            o ∈ op.metadata.owners) ∨ c.Knows o.uid := by
  constructor
  · intro op hop o ho hkind hcontroller hknown
    obtain ⟨x, hx, hcustody⟩ := hc.custody hknown
    obtain ⟨-, hlast⟩ := hcustody.reachable (hx ▸ hknown) hc.regular h
    have hclaimed : Pool.isClaimedBy x.uid op = true :=
      Pool.isClaimedBy_iff.2 ⟨o, ho, hkind, hx.symm, hcontroller⟩
    obtain ⟨r, hr, hguards⟩ := hlast.guarded op hop hclaimed
    obtain ⟨huid, -⟩ := hlast.stored r hr
    exact ⟨r, (Cluster.mem_of_requirement? hr).1, hx ▸ huid, hguards.finalizer⟩
  · intro t ht n call next fate hrest hroom op' hop' o ho
    obtain rfl := Task.namespaceName_of_call hrest
    obtain ⟨hregular, hfamiliar⟩ := h.induction_of
      (P := fun w => w.Regular ∧ w.Familiar c.Knows)
      ⟨hc.regular, ⟨fun r hr _ huid => ⟨r, hr, huid⟩, fun _ ht => (nomatch ht)⟩⟩
      fun _ _ hw hstep => ⟨hw.1.step hstep, hw.2.step hw.1 hstep⟩
    rcases hregular.consistent.reference_cases ht hrest hroom op' hop' o ho with
      hbefore | ⟨uid, controller, huid, rfl⟩
    · exact .inl hbefore
    · exact .inr (hfamiliar.tasks t ht uid huid)

/-- The sample, which holds the operation of its pool, is stored and has our finalizer. -/
theorem guarded_claims_sample :
    ∃ w, Reachable (custodial sampleCluster.Knows) { cluster := sampleCluster } w ∧
      ∃ op ∈ w.cluster.operations, op.IsHeld "sample" ∧
        ∃ r ∈ w.cluster.requirements, r.metadata.uid = some "sample" ∧ r.hasFinalizer = true := by
  obtain ⟨c, former, r, hreach, -, -, -, -, op, hop, hmem⟩ := sample_holds
  have hguarded := (guarded_claims sampleCluster_fresh hreach).1 op hop _ hmem rfl rfl
    sampleCluster_knows
  exact ⟨_, hreach, op, hop, ⟨_, hmem, rfl, rfl⟩, hguarded⟩

end WarmPool
