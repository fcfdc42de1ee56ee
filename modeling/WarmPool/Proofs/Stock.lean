import WarmPool.Proofs.Schedule

/-!
# A pool with one operation

The least that a requirement can claim from: a cache whose pool has one operation, ready and held by
nobody (`Cluster.Stocked`). In it a requirement comes to claim that operation (`Leads.claimStock`),
and a new requirement may hold it while its status still says that it searches (`Leads.holdStock`).
-/

namespace WarmPool

open Reconcile

/-- A cache for a key with one operation in its pool. -/
def warmCache (namespaceName key : String) : Cache where
  metadata :=
    { name := some (Cache.nameForKey key)
      namespaceName := some namespaceName
      uid := some "cache" }
  spec := { template := {}, keepAliveCount := 1, keepAliveDuration := "30m" }
  status := some { key := some key, keepAliveCount := 1, operations := ["warm"] }

/-- The operation in the pool of the cache. -/
def warmOperation (namespaceName key : String) : Operation where
  metadata :=
    { name := some "warm"
      namespaceName := some namespaceName
      labels := some (StringMap.ofList [(keyLabel, key)])
      ownerReferences :=
        some [ownerReference .cache (warmCache namespaceName key).metadata "cache" true]
      resourceVersion := some (natText 1) }
  spec := {}
  status := some { phase := .ready, ownerTransferable := true }

namespace Cluster

/-- The pool of a key has its one operation, and there is no other. -/
structure Stocked (c : Cluster) (namespaceName key : String) : Prop where
  caches : c.caches = [warmCache namespaceName key]
  operations : c.operations = [warmOperation namespaceName key]

/-- A cluster with a stocked pool and one requirement. -/
def stocked (namespaceName key : String) (r : Requirement) : Cluster where
  requirements := [r]
  caches := [warmCache namespaceName key]
  operations := [warmOperation namespaceName key]

variable {c : Cluster} {namespaceName key : String} {r : Requirement}

theorem stocked_isStocked : (stocked namespaceName key r).Stocked namespaceName key :=
  ⟨rfl, rfl⟩

/-- A cluster with one operation is in order if the operation has a place and a version. -/
theorem orderly_of_single {op : Operation} {name : String} {n : Nat} (h : c.operations = [op])
    (hat : op.metadata.isAt namespaceName name = true)
    (hversion : op.metadata.resourceVersion = some (natText n)) (hissued : n ≤ c.version) :
    c.Orderly := by
  have hop {op' : Operation} (hop' : op' ∈ c.operations) : op' = op := by
    rw [h] at hop'
    exact List.mem_singleton.1 hop'
  refine ⟨fun op' hmem => ?_, ?_, fun op' hmem k hk heq => ?_⟩
  · rw [hop hmem]
    exact ⟨namespaceName, name, hat⟩
  · rw [h]
    exact List.nodup_singleton _
  · rw [hop hmem, hversion] at heq
    have hsame : n = k := natText_injective (Option.some.inj heq)
    omega

theorem Stocked.orderly (h : c.Stocked namespaceName key) (hissued : 1 ≤ c.version) :
    c.Orderly :=
  have hat : (warmOperation namespaceName key).metadata.isAt namespaceName "warm" = true := by
    simp [Metadata.isAt, warmOperation]
  orderly_of_single h.operations hat rfl hissued

theorem stocked_orderly : (stocked namespaceName key r).Orderly :=
  stocked_isStocked.orderly (Nat.le_add_left 1 999)

theorem Stocked.cache? (h : c.Stocked namespaceName key) :
    c.cache? namespaceName (Cache.nameForKey key) = some (warmCache namespaceName key) := by
  unfold Cluster.cache?
  rw [h.caches]
  exact List.find?_cons_of_pos (by simp [Metadata.isAt, warmCache])

theorem Stocked.operation? (h : c.Stocked namespaceName key) :
    c.operation? namespaceName "warm" = some (warmOperation namespaceName key) := by
  unfold Cluster.operation?
  rw [h.operations]
  exact List.find?_cons_of_pos (by simp [Metadata.isAt, warmOperation])

theorem Stocked.listOperations (h : c.Stocked namespaceName key) :
    c.listOperations namespaceName key = [warmOperation namespaceName key] := by
  unfold Cluster.listOperations
  rw [h.operations]
  refine List.filter_cons_of_pos ?_
  simp [Operation.hasLabel, warmOperation, StringMap.ofList, StringMap.get?, StringMap.insert,
    StringMap.insertEntry, StringMap.empty]

end Cluster

/-! ### Claiming from it -/

namespace Leads

variable {env : Surroundings} {w₀ : World} {c : Cluster} {occasion : Occasion} {r : Requirement}
  {namespaceName name key uid : String}

/-- A reconcile comes to claim the operation of the pool. -/
theorem claimStock (h : Leads env w₀ c []) (settings : Settings)
    (hview : ∀ w, env.views w w.cluster)
    (hstarts : ∀ former, env.starts { cluster := c, former := former } occasion r)
    (hstock : c.Stocked namespaceName key) (hadvances : AdvancesFrom r .cacheChecking)
    (hat : r.metadata.isAt namespaceName name = true) (huid : r.metadata.uid = some uid)
    (hkey : soughtKey r r.known = key) :
    ∃ t, Leads env w₀ c [t] ∧ t.requirement = r ∧
      ∃ next, t.rest = .call t.namespaceName (.patchOwners "warm" (natText 1)
        ((warmOperation namespaceName key).metadata.withOwner (holderReference r uid false)))
        next := by
  subst hkey
  have hnone :
      Pool.claimedBy? uid (c.listOperations namespaceName (soughtKey r r.known)) = none := by
    rw [hstock.listOperations]
    rfl
  have hselect : Pool.select? (warmCache namespaceName (soughtKey r r.known))
      (c.listOperations namespaceName (soughtKey r r.known)) =
      some (warmOperation namespaceName (soughtKey r r.known)) := by
    rw [hstock.listOperations]
    rfl
  exact (h.start settings hstarts).claim hview hadvances hat huid hstock.cache? hnone hselect rfl

/-- A requirement holds the operation of the pool, while its status is as before. -/
theorem holdStock (h : Leads env w₀ c []) (settings : Settings)
    (hview : ∀ w, env.views w w.cluster)
    (hstarts : ∀ former, env.starts { cluster := c, former := former } occasion r)
    (hstock : c.Stocked namespaceName key) (hadvances : AdvancesFrom r .cacheChecking)
    (hat : r.metadata.isAt namespaceName name = true) (huid : r.metadata.uid = some uid)
    (hkey : soughtKey r r.known = key) :
    ∃ c', Leads env w₀ c' [] ∧ c'.requirements = c.requirements ∧ c'.caches = c.caches ∧
      ∃ op ∈ c'.operations, op.metadata.namespaceName = some namespaceName ∧
        holderReference r uid false ∈ op.metadata.owners := by
  obtain ⟨t, hleads, hsame, next, hrest⟩ :=
    h.claimStock settings hview hstarts hstock hadvances hat huid hkey
  obtain ⟨c', hleads', hrequirements, hcaches, op, hop, hnamespace, howners⟩ :=
    hleads.breakOff hview hrest (hsame ▸ hat) hstock.operation? rfl
  refine ⟨c', hleads', hrequirements, hcaches, op, hop, hnamespace, ?_⟩
  rw [howners]
  exact List.mem_append_right _ List.mem_cons_self

end Leads

/-! ### A requirement for it -/

/-- A requirement with caching, as it is created. -/
def sampleRequirement : Requirement where
  metadata := { name := some "sample", namespaceName := some "dev", uid := some "sample" }
  spec :=
    { template := { applications := [{ name := "app", provision := { image := "app" } }] }
      enableCache := true }

theorem validate_sampleRequirement : sampleRequirement.spec.validate = .ok () := by
  decide

theorem sampleRequirement_timely : sampleRequirement.Timely := by
  refine ⟨⟨fun _ h => ?_, fun _ h => ?_, fun _ h => ?_⟩, fun _ h => ?_⟩
  · cases h
  · cases h
  · cases h
  · cases h

/-- A requirement that searches a pool, with or without its key stored. -/
def searchingRequirement (key : Option String) : Requirement :=
  { sampleRequirement with
    metadata := { sampleRequirement.metadata with finalizers := some [requirementFinalizer] }
    status := some { phase := .cacheChecking, key := key } }

theorem searchingRequirement_timely (key : Option String) : (searchingRequirement key).Timely :=
  ⟨sampleRequirement_timely.1, fun _ h => nomatch h⟩

/-- An occasion at the beginning of time. -/
def sampleOccasion : Occasion := ⟨⟨0, 0⟩, Vector.replicate suffixLength 0⟩

end WarmPool
