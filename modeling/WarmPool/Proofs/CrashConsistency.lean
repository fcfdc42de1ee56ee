import WarmPool.Proofs.Custody
import WarmPool.Proofs.Stock

/-!
# Which requirements survive a crash between claim and record

A claim takes effect before the status says so, and only the stored key leads back to it. A
requirement that searches its pool with the key stored never loses its finalizer while it holds an
operation, wherever its reconciles break off. One that searches by the key of its template, none
being stored, may: what it claimed is never handed back. So the stored key is exactly what crash
consistency takes (`crash_consistent_iff`).
-/

namespace WarmPool

open Reconcile

/-! ### Asking for deletion -/

/-- The requirement with a time at which its deletion was asked for. -/
def Requirement.deletedAt (r : Requirement) (time : Timestamp) : Requirement :=
  { r with metadata := { r.metadata with deletionTimestamp := some time } }

theorem Requirement.touches_deletedAt (r : Requirement) {time : Timestamp} (htime : time.Valid) :
    Touches r (r.deletedAt time) := by
  refine ⟨rfl, rfl, rfl, rfl, id, fun _ => rfl, fun htimely => ?_⟩
  obtain ⟨⟨hcreation, -, hmanaged⟩, hknown⟩ := htimely
  refine ⟨⟨hcreation, fun t ht => ?_, hmanaged⟩, hknown⟩
  rw [← Option.some.inj ht]
  exact htime

/-! ### What crash consistency takes -/

namespace Claimant

/-- A cluster in which the requirement is stored like this and holds nothing. -/
structure Idle (x : Claimant) (r : Requirement) (c : Cluster) : Prop where
  orderly : c.Orderly
  timely : ∀ r ∈ c.requirements, r.Timely
  stored : x.stored? c = some r
  /-- The UID is that of no other requirement. -/
  known : ∀ r ∈ c.requirements, r.metadata.uid = some x.uid → x.isAt r.metadata = true
  unheld : ∀ op ∈ c.operations, ¬ op.IsHeld x.uid

/-- Whoever is about to take the finalizer of the requirement away leaves nothing held by it. -/
def LeavesNothing (x : Claimant) (w : World) : Prop :=
  ∀ t ∈ w.tasks, x.isAt t.requirement.metadata = true →
    ∀ n name finalizer next, t.rest = .call n (.removeFinalizer name finalizer) next →
      ∀ op ∈ w.cluster.operations, op.metadata.namespaceName = some x.namespaceName →
        ¬ op.IsHeld x.uid

variable {x : Claimant} {r : Requirement} {c : Cluster}

/-- Nobody else adds references to the requirement. -/
def undisturbed (x : Claimant) : Surroundings := custodial (x.uid = ·)

theorem Idle.custody (h : x.Idle r c) (huid : r.metadata.uid = some x.uid) (hsound : r.Sound) :
    x.Custody { cluster := c } := by
  refine custody_of_unclaimed h.known (fun r' hr' => ?_) fun op hop => ?_
  · rw [← Option.some.inj (h.stored.symm.trans hr')]
    exact ⟨huid, hsound⟩
  · rw [Bool.eq_false_iff]
    exact fun hclaimed => h.unheld op hop (Pool.isHeld_of_isClaimedBy hclaimed)

/-- A requirement that is sound at first leaves nothing held. -/
theorem Idle.leavesNothing (h : x.Idle r c) (huid : r.metadata.uid = some x.uid) (hsound : r.Sound)
    {w : World} (hrun : Reachable x.undisturbed { cluster := c } w) :
    x.LeavesNothing w := by
  have hours : x.uid = x.uid := rfl
  have hregular := World.regular_of_orderly h.orderly h.timely
  have hfirst : c.HeldAsRequirement x.uid := fun op hop o ho hoUid hcontroller =>
    absurd ⟨o, ho, hoUid, hcontroller⟩ (h.unheld op hop)
  have hheld := hfirst.reachable hours hregular hrun
  obtain ⟨hlast, hcustody⟩ := (h.custody huid hsound).reachable hours hregular hrun
  intro t ht hat n name finalizer next hrest op hop _ hopHeld
  obtain rfl := Task.namespaceName_of_call hrest
  obtain ⟨-, hnone⟩ := hcustody.unclaimed_of_removeFinalizer hlast ht hat hrest
  exact absurd (hheld.isClaimedBy hop hopHeld) (by simp [hnone op hop])

theorem idle_stocked (hat : x.isAt r.metadata = true) (htimely : r.Timely) (key : String) :
    x.Idle r (Cluster.stocked x.namespaceName key r) := by
  refine ⟨Cluster.stocked_orderly, fun r' hr' => ?_, ?_, fun r' hr' _ => ?_,
    fun op hop => ?_⟩
  · rw [List.mem_singleton.1 hr']
    exact htimely
  · unfold stored? Cluster.requirement? Cluster.stocked
    exact List.find?_cons_of_pos hat
  · rw [List.mem_singleton.1 hr']
    exact hat
  · rw [List.mem_singleton.1 hop]
    rintro ⟨o, ho, -, hcontroller⟩
    rw [List.mem_singleton.1 ho] at hcontroller
    cases hcontroller

theorem undisturbed_starts {occasion : Occasion} (hnow : occasion.now.Valid)
    (hstored : x.stored? c = some r) (former : List Cluster) :
    x.undisturbed.starts { cluster := c, former := former } occasion r :=
  ⟨hnow, x.namespaceName, x.name, hstored, fun _ ht => (nomatch ht)⟩

/-- Deletion is asked for, and reconciles come to take the finalizer away without a release. -/
theorem unreleased {w₀ : World} {occasion : Occasion} (h : Leads x.undisturbed w₀ c [])
    (hregular : w₀.Regular) (hnow : occasion.now.Valid) (hstored : x.stored? c = some r)
    (hfinalizer : r.hasFinalizer = true) (hphase : r.known.phase = .cacheChecking)
    (hkey : r.known.key = none) :
    ∃ c' t, Leads x.undisturbed w₀ c' [t] ∧ c'.operations = c.operations ∧
      x.isAt t.requirement.metadata = true ∧
      ∃ n name finalizer next, t.rest = .call n (.removeFinalizer name finalizer) next := by
  have hview (w : World) : x.undisturbed.views w w.cluster := rfl
  let change (r : Requirement) : Requirement := r.deletedAt occasion.now
  let deleted := c.updateRequirement x.namespaceName x.name change
  have hdeleted : Leads x.undisturbed w₀ deleted [] :=
    h.others (.requirements (.edit x.namespaceName x.name change fun r _ _ =>
      ⟨r.touches_deletedAt hnow, rfl⟩))
  have hstoredDeleted : x.stored? deleted = some (change r) := by
    have hafter : x.stored? deleted = (x.stored? c).map change :=
      Cluster.requirement?_updateRequirement fun _ _ hat => hat
    rw [hafter, hstored]
    rfl
  have htimelyDeleted : ∀ r ∈ deleted.requirements, r.Timely := by
    obtain ⟨former, hreach⟩ := hdeleted
    exact (hregular.reachable hreach).timely
  -- One reconcile says that it is being deleted, and the next one finds no key to release by.
  obtain ⟨c₁, r₁, h₁, hoperations₁, hstored₁, htimely₁, hdeleting₁, hfinalizer₁, hphase₁, hkey₁⟩ :=
    hdeleted.declareDeletion {} hview (undisturbed_starts hnow hstoredDeleted) hstoredDeleted
      htimelyDeleted rfl hfinalizer hphase
  obtain ⟨c₂, t, h₂, hoperations₂, hsame, next, hrest⟩ :=
    h₁.removeFinalizer {} hview (undisturbed_starts hnow hstored₁) hstored₁ htimely₁ hdeleting₁
      hfinalizer₁ hphase₁ (hkey₁.trans hkey)
  exact ⟨c₂, t, h₂, hoperations₂.trans hoperations₁,
    hsame ▸ (Cluster.mem_of_requirement? hstored₁).2, _, _, _, next, hrest⟩

/--
Without a key, what is claimed just before a crash is still held when the finalizer goes. The pool
is that of the key of the template, as no other is stored.
-/
theorem stranded (hat : x.isAt r.metadata = true) (huid : r.metadata.uid = some x.uid)
    (htimely : r.Timely) (hadvances : AdvancesFrom r .cacheChecking)
    (hfinalizer : r.hasFinalizer = true) (hkey : r.known.key = none) :
    ∃ w, Reachable x.undisturbed
        { cluster := Cluster.stocked x.namespaceName (soughtKey r r.known) r } w ∧
      ¬ x.LeavesNothing w := by
  have hnow : sampleOccasion.now.Valid := by decide
  let c := Cluster.stocked x.namespaceName (soughtKey r r.known) r
  have hidle : x.Idle r c := idle_stocked hat htimely _
  have hfirst : Leads x.undisturbed { cluster := c } c [] := ⟨[], .refl⟩
  obtain ⟨c₁, hheld, hrequirements, -, op, hop, hnamespace, hmem⟩ :=
    hfirst.holdStock {} (fun _ => rfl) (undisturbed_starts hnow hidle.stored)
      Cluster.stocked_isStocked hadvances hat huid rfl
  have hstored₁ : x.stored? c₁ = some r := by
    unfold stored? Cluster.requirement?
    rw [hrequirements]
    exact hidle.stored
  obtain ⟨c₂, t, ⟨former, hreach⟩, hoperations, htAt, n, name, finalizer, next, hrest⟩ :=
    unreleased hheld (World.regular_of_orderly hidle.orderly hidle.timely) hnow hstored₁ hfinalizer
      hadvances.2.2 hkey
  refine ⟨_, hreach, fun hleaves => ?_⟩
  exact hleaves t List.mem_cons_self htAt n name finalizer next hrest op (hoperations ▸ hop)
    hnamespace ⟨_, hmem, rfl, rfl⟩

/-- The sample as a claimant. -/
def sampleClaimant : Claimant := ⟨"dev", "sample", "sample"⟩

/-- The sample without its key, and a pool with one operation, which is never handed back. -/
theorem stranded_sample :
    sampleClaimant.Idle (searchingRequirement none)
        (Cluster.stocked "dev" sampleKey (searchingRequirement none)) ∧
      ∃ w, Reachable sampleClaimant.undisturbed
          { cluster := Cluster.stocked "dev" sampleKey (searchingRequirement none) } w ∧
        ¬ sampleClaimant.LeavesNothing w := by
  have hat : sampleClaimant.isAt (searchingRequirement none).metadata = true := by decide
  have htimely := searchingRequirement_timely none
  exact ⟨idle_stocked hat htimely sampleKey,
    stranded hat rfl htimely ⟨rfl, validate_sampleRequirement, rfl⟩ (by decide) rfl⟩

/-! ### The exact condition -/

/--
A requirement that searches its pool with our finalizer and holds nothing: whatever fails, is cut
off, or is done by others, its finalizer is taken away only when no operation of its namespace is
held by it, if and only if its key is stored, unless it never gets to claim because it is invalid or
being deleted already.
-/
theorem crash_consistent_iff (hat : x.isAt r.metadata = true)
    (huid : r.metadata.uid = some x.uid) (htimely : r.Timely)
    (hphase : r.known.phase = .cacheChecking) (hfinalizer : r.hasFinalizer = true) :
    (∀ c, x.Idle r c → ∀ w, Reachable x.undisturbed { cluster := c } w → x.LeavesNothing w) ↔
      (r.spec.validate = .ok () → r.isDeleting = false → r.known.key.isSome) := by
  constructor
  · intro hconsistent hspec hdeleting
    rw [Option.isSome_iff_ne_none]
    intro hkey
    obtain ⟨w, hrun, hstranded⟩ :=
      stranded hat huid htimely ⟨hdeleting, hspec, hphase⟩ hfinalizer hkey
    exact hstranded (hconsistent _ (idle_stocked hat htimely _) w hrun)
  · intro hkey c hidle w hrun
    exact hidle.leavesNothing huid (fun _ => ⟨hfinalizer, hkey⟩) hrun

/-- With its key stored the sample survives every crash; without it, it does not. -/
theorem crash_consistent_iff_sample :
    (∀ c, sampleClaimant.Idle (searchingRequirement (some "key")) c →
      ∀ w, Reachable sampleClaimant.undisturbed { cluster := c } w →
        sampleClaimant.LeavesNothing w) ∧
    ¬ ∀ c, sampleClaimant.Idle (searchingRequirement none) c →
      ∀ w, Reachable sampleClaimant.undisturbed { cluster := c } w →
        sampleClaimant.LeavesNothing w := by
  constructor
  · exact (crash_consistent_iff (by decide) rfl (searchingRequirement_timely _) rfl (by decide)).2
      fun _ _ => rfl
  · rw [crash_consistent_iff (by decide) rfl (searchingRequirement_timely _) rfl (by decide)]
    intro hkey
    cases hkey validate_sampleRequirement rfl

end Claimant

end WarmPool
