import WarmPool.Proofs.Custody
import WarmPool.Proofs.Rounds

/-!
# One operation for one requirement

A requirement never holds two operations at once, and takes no second one after a claim that was
not recorded: the next reconcile in which nothing goes wrong finds what is held and binds it
(`single_acquisition`). That reconcile is a rehearsal without any misbehaviour, which does what
its plan does on the cluster (`Reconcile.plan_performs_adopting`).
-/

namespace WarmPool

open Reconcile

/-! ### What a requirement holds -/

namespace Claimant

variable {x : Claimant} {w : World} {op : Operation}

/-- At most one operation is held. -/
theorem Custody.length_filter_le (h : w.Regular) (hx : x.Custody w)
    (hheld : w.cluster.HeldAsRequirement x.uid) :
    (w.cluster.operations.filter fun op => op.IsHeld x.uid).length ≤ 1 := by
  have hnodup : (w.cluster.operations.filter fun op => op.IsHeld x.uid).Nodup :=
    (List.Nodup.of_map _ h.consistent.orderly.apart).filter _
  have hsame : ∀ op ∈ w.cluster.operations.filter fun op => op.IsHeld x.uid,
      ∀ op' ∈ w.cluster.operations.filter fun op => op.IsHeld x.uid, op = op' := by
    intro op hop op' hop'
    obtain ⟨hmem, hop⟩ := List.mem_filter.1 hop
    obtain ⟨hmem', hop'⟩ := List.mem_filter.1 hop'
    exact hx.single op hmem op' hmem' (hheld.isClaimedBy hmem (of_decide_eq_true hop))
      (hheld.isClaimedBy hmem' (of_decide_eq_true hop'))
  cases hfound : w.cluster.operations.filter fun op => op.IsHeld x.uid with
  | nil => exact Nat.zero_le 1
  | cons op rest =>
    cases rest with
    | nil => exact le_rfl
    | cons op' rest =>
      rw [hfound] at hnodup hsame
      have heq := hsame op List.mem_cons_self op' (List.mem_cons_of_mem _ List.mem_cons_self)
      exact absurd (heq ▸ List.mem_cons_self) (List.nodup_cons.1 hnodup).1

/-- What is held is what a search finds held. -/
theorem Custody.claimedBy?_eq (hx : x.Custody w) {r : Requirement} {key : String}
    (hstored : x.stored? w.cluster = some r) (hkey : r.known.key = some key)
    (hop : op ∈ w.cluster.operations) (hclaimed : Pool.isClaimedBy x.uid op = true) :
    Pool.claimedBy? x.uid (w.cluster.listOperations x.namespaceName key) = some op := by
  have hlisted := hx.mem_listOperations hstored hkey hop hclaimed
  cases hfound : Pool.claimedBy? x.uid (w.cluster.listOperations x.namespaceName key) with
  | none => exact absurd hclaimed (List.find?_eq_none.1 hfound op hlisted)
  | some op' =>
    have hmem' := (List.mem_filter.1 (List.mem_of_find?_eq_some hfound)).1
    rw [hx.single op' hmem' op hop (List.find?_some hfound) hclaimed]

/-- A reconcile in which nothing goes wrong binds what is held, and claims nothing. -/
theorem Custody.reconcile_adopts (h : w.Regular) (hx : x.Custody w) {settings : Settings}
    {occasion : Occasion} {r : Requirement} {cache : Cache}
    (hstored : x.stored? w.cluster = some r) (hkept : r.isDeleting = false)
    (hphase : r.known.phase = .cacheChecking) (hop : op ∈ w.cluster.operations)
    (hclaimed : Pool.isClaimedBy x.uid op = true)
    (hcache : w.cluster.cache? x.namespaceName (Cache.nameForKey (soughtKey r r.known)) =
      some cache)
    (hnow : occasion.now.Valid) :
    ∃ action trace s, Rehearsal.reconcile settings occasion (.calm w.cluster) r =
        (.ok action, trace, s) ∧
      (∀ name version owners, .patchOwners name version owners ∉ trace.calls) ∧
      ∃ r', x.stored? s.cluster = some r' ∧ r'.known.phase = .operating ∧
        r'.known.operationName = some op.name := by
  -- What is held is guarded by the stored requirement, so it is found by the key searched by.
  obtain ⟨r', hr', hguards⟩ := hx.guarded op hop hclaimed
  obtain rfl : r' = r := Option.some.inj (hr'.symm.trans hstored)
  obtain ⟨key, hkey, -⟩ := hguards.key
  obtain ⟨huid, -⟩ := hx.stored r' hstored
  obtain ⟨hmem, hat⟩ := Cluster.mem_of_requirement? hstored
  have hsought : soughtKey r' r'.known = key := by
    unfold soughtKey
    rw [hkey]
    rfl
  have hheld : Pool.claimedBy? x.uid
      (w.cluster.listOperations x.namespaceName (soughtKey r' r'.known)) = some op := by
    rw [hsought]
    exact hx.claimedBy?_eq hstored hkey hop hclaimed
  have hstores : w.cluster.Stores x.namespaceName r' := .of_stored hstored h.timely
  obtain ⟨c', r'', hperforms, hreported⟩ := @plan_performs_adopting settings _ _ _ _ _ _ hstores
    hnow ⟨hkept, hguards.spec, hphase⟩ huid _ hcache hheld
  obtain ⟨trace, s, hreconcile, hcalls, rfl⟩ := Rehearsal.reconcile_of_performs hperforms
  refine ⟨_, trace, s, hreconcile, fun name version owners hclaims => ?_, r'',
    hreported.stores.of_alike hreported.alike hat, ?_, ?_⟩
  · -- After the two reads there is at most the status to be written.
    rw [hcalls] at hclaims
    unfold commitCalls at hclaims
    split at hclaims
    all_goals simp at hclaims
  · rw [hreported.known]
    rfl
  · rw [hreported.known]
    rfl

end Claimant

/-! ### The whole run -/

/--
From requirements as they are created, whatever fails, is cut off or is deleted: a requirement holds
one operation at most, it is never about to claim one while it holds one, and while it holds one and
searches its pool, the next reconcile in which nothing goes wrong writes no owners and binds exactly
that operation.
-/
theorem single_acquisition {c : Cluster} (hc : c.Fresh) {w : World}
    (h : Reachable (custodial c.Knows) { cluster := c } w) {uid : String} (huid : c.Knows uid) :
    (w.cluster.operations.filter fun op => op.IsHeld uid).length ≤ 1 ∧
    (∀ t ∈ w.tasks, t.requirement.metadata.uid = some uid → t.requirement.isDeleting = false →
      ∀ n name seen owners next, t.rest = .call n (.patchOwners name seen owners) next →
        ∀ op ∈ w.cluster.operations, ¬ op.IsHeld uid) ∧
    ∀ namespaceName name r op cache settings occasion,
      w.cluster.requirement? namespaceName name = some r → r.metadata.uid = some uid →
      r.isDeleting = false → r.known.phase = .cacheChecking →
      op ∈ w.cluster.operations → op.IsHeld uid →
      w.cluster.cache? namespaceName (Cache.nameForKey (soughtKey r r.known)) = some cache →
      occasion.now.Valid →
      ∃ action trace s, Rehearsal.reconcile settings occasion (.calm w.cluster) r =
          (.ok action, trace, s) ∧
        (∀ operation version owners, .patchOwners operation version owners ∉ trace.calls) ∧
        ∃ r', s.cluster.requirement? namespaceName name = some r' ∧
          r'.known.phase = .operating ∧ r'.known.operationName = some op.name := by
  obtain ⟨x, rfl, hcustody⟩ := hc.custody huid
  obtain ⟨hregular, hx⟩ := hcustody.reachable huid hc.regular h
  have hheld := (hc.heldAsRequirement huid).reachable huid hc.regular h
  refine ⟨hx.length_filter_le hregular hheld, ?_, ?_⟩
  · intro t ht htUid hkept n name seen owners next hrest op hop hopHeld
    obtain rfl := Task.namespaceName_of_call hrest
    -- A reconcile with the UID is one of the requirement, and what it writes is a claim.
    have hat : x.isAt t.requirement.metadata = true := by
      by_contra hnot
      exact hx.others t ht (by simpa using hnot) htUid
    have hadvances : AdvancesFrom t.requirement .cacheChecking := by
      obtain ⟨_, _, _, _, _, _, _, _, _, hkind⟩ :=
        (hregular.consistent.move ht hrest).patchOwners_cases
      rcases hkind with ⟨_, hadvances, _⟩ | ⟨hreleases, _⟩
      · exact hadvances
      · exact absurd hreleases.1 (by simp [hkept])
    have hnone := hx.unclaimed_of_claim hregular ht hat hrest hadvances op hop
    exact absurd (hheld.isClaimedBy hop hopHeld) (by simp [hnone])
  · intro namespaceName name r op cache settings occasion hstored hrUid hkept hphase hop hopHeld
      hcache hnow
    obtain ⟨hmem, hat⟩ := Cluster.mem_of_requirement? hstored
    obtain ⟨rfl, rfl⟩ : namespaceName = x.namespaceName ∧ name = x.name := by
      have hsame := (Metadata.isAt_iff.1 hat).symm.trans
        (Metadata.isAt_iff.1 (hx.known r hmem hrUid))
      simpa using hsame
    exact hx.reconcile_adopts hregular hstored hkept hphase hop (hheld.isClaimedBy hop hopHeld)
      hcache hnow

/-- The sample, which holds the operation of its pool, goes on with that one. -/
theorem single_acquisition_sample :
    ∃ w, Reachable (custodial sampleCluster.Knows) { cluster := sampleCluster } w ∧
      (w.cluster.operations.filter fun op => op.IsHeld "sample").length ≤ 1 ∧
      ∃ op ∈ w.cluster.operations, op.IsHeld "sample" ∧ ∃ r action trace s,
        Rehearsal.reconcile {} sampleOccasion (.calm w.cluster) r = (.ok action, trace, s) ∧
        (∀ operation version owners, .patchOwners operation version owners ∉ trace.calls) ∧
        ∃ r', s.cluster.requirement? "dev" "sample" = some r' ∧ r'.known.phase = .operating ∧
          r'.known.operationName = some op.name := by
  obtain ⟨c, former, r, hreach, hstored, hadvances, huid, hcache, op, hop, hmem⟩ := sample_holds
  have hheld : op.IsHeld "sample" := ⟨_, hmem, rfl, rfl⟩
  obtain ⟨hone, -, hadopts⟩ := single_acquisition sampleCluster_fresh hreach sampleCluster_knows
  have hnext := hadopts "dev" "sample" r op _ {} sampleOccasion hstored huid hadvances.1
    hadvances.2.2 hop hheld hcache (by decide)
  exact ⟨_, hreach, hone, op, hop, hheld, r, hnext⟩

end WarmPool
