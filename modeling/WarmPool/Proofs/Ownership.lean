import WarmPool.Proofs.Stock

/-!
# Owners besides the requirement

Whatever others write to an operation meanwhile, a claim or a release that takes effect changes
nothing of the operation but its references to the one requirement (`owners_written`). The list that
is written was made from the operation that was read, and the version makes that the one stored. A
claim puts its own reference in the place of any other to the same UID, even of that to the
controlling owner (`claim_of_controller`).
-/

namespace WarmPool

open Reconcile

/-- Anything may start at any time, reads may be old, and others write what they want. -/
def turmoil : Surroundings where
  starts _ _ _ := True
  views w view := view = w.cluster ∨ view ∈ w.former
  license :=
    { requirements := fun _ _ => True
      write := fun _ _ => True
      make := fun _ => True }

theorem turmoil_faithful : turmoil.Faithful := fun _ _ h => h

/-- The operation without its owners and its version. -/
def Operation.unowned (op : Operation) : Operation :=
  { op with metadata := { op.metadata with ownerReferences := none, resourceVersion := none } }

/-! ### Owners with a UID and without -/

namespace Metadata

variable {m m' : Metadata} {r : OwnerReference} {uid : String}

/-- Leaving out the owners with a UID once more leaves out nothing. -/
theorem filter_withoutOwner (m : Metadata) (uid : String) :
    (m.withoutOwner uid).filter (fun r => r.uid ≠ uid) = m.withoutOwner uid := by
  unfold withoutOwner
  rw [List.filter_filter]
  simp

/-- The owners written are the owners read, those with the UID apart. -/
theorem withoutOwner_eq (h : m'.owners = m.withoutOwner uid) :
    m'.withoutOwner uid = m.withoutOwner uid := by
  have hsame : m'.withoutOwner uid = (m.withoutOwner uid).filter fun r => r.uid ≠ uid := by
    rw [← h]
    rfl
  rw [hsame, filter_withoutOwner]

theorem withoutOwner_eq_of_append (h : m'.owners = m.withoutOwner uid ++ [r]) (hr : r.uid = uid) :
    m'.withoutOwner uid = m.withoutOwner uid := by
  have hsame : m'.withoutOwner uid =
      (m.withoutOwner uid ++ [r]).filter fun r => r.uid ≠ uid := by
    rw [← h]
    rfl
  rw [hsame, List.filter_append, filter_withoutOwner]
  simp [hr]

/-- A controlling owner with another UID is found among the owners without the UID. -/
theorem find?_withoutOwner (h : ∀ owner, m.controllerOwner? = some owner → owner.uid ≠ uid) :
    (m.withoutOwner uid).find? OwnerReference.isController = m.controllerOwner? :=
  find?_filter_of_kept fun owner howner => by simpa using h owner howner

/-- The owners written have the controlling owner of those read, unless it has the UID. -/
theorem controllerOwner?_eq (hr : r.isController = false)
    (howners : m'.owners = m.withoutOwner uid ∨ m'.owners = m.withoutOwner uid ++ [r])
    (h : ∀ owner, m.controllerOwner? = some owner → owner.uid ≠ uid) :
    m'.controllerOwner? = m.controllerOwner? := by
  have hfound := find?_withoutOwner h
  unfold controllerOwner? at hfound ⊢
  rcases howners with howners | howners
  · rw [howners, hfound]
  · have hlast : [r].find? OwnerReference.isController = none := by simp [hr]
    rw [howners, List.find?_append, hfound, hlast, Option.or_none]

end Metadata

/-- A write of owners leaves the operations of other places as they are. -/
theorem Cluster.operation?_patchOwners_of_ne {c : Cluster} {namespaceName name seen : String}
    {owners : List OwnerReference} {namespaceName' name' : String}
    (h : (namespaceName', name') ≠ (namespaceName, name)) :
    (c.patchOwners namespaceName name seen owners).2.operation? namespaceName' name' =
      c.operation? namespaceName' name' := by
  rw [patchOwners_eq]
  cases c.operation? namespaceName name with
  | none => rfl
  | some op =>
    by_cases hversion : op.metadata.resourceVersion = some seen
    · simp only [hversion, ↓reduceIte]
      exact find?_updateWhere_of_ne fun other _ hat =>
        ⟨Metadata.isAt_of_ne hat h.symm, Metadata.isAt_of_ne hat h.symm⟩
    · simp only [hversion, ↓reduceIte]
      rfl

/-! ### What is written where -/

/--
Whatever reconciles run, however they interleave and whatever others write: a write of owners that
takes effect is a claim or a release. A claim puts one reference to its requirement, which does not
control, after the other owners that the operation has at that instant, and in the place of any
others to the UID of the requirement. A release takes away the references to that UID. The other
references are what they were, in the same order, the controlling owner is the same unless it has
that UID, and nothing else of the operation changes but its version, and no other operation.
-/
theorem owners_written {c : Cluster} (hc : c.Orderly) {w : World}
    (h : Reachable turmoil { cluster := c } w) {t : Task} (ht : t ∈ w.tasks)
    {n name seen : String} {owners : List OwnerReference} {next : Except Error Unit → Plan Action}
    (hrest : t.rest = .call n (.patchOwners name seen owners) next)
    (heffect : (w.cluster.patchOwners n name seen owners).1 = .ok ()) :
    ∃ uid old new, t.requirement.metadata.uid = some uid ∧
      w.cluster.operation? n name = some old ∧
      (w.cluster.patchOwners n name seen owners).2.operation? n name = some new ∧
      ((AdvancesFrom t.requirement .cacheChecking ∧
          new.metadata.owners =
            old.metadata.withoutOwner uid ++ [holderReference t.requirement uid false]) ∨
        (Releases t.requirement ∧ new.metadata.owners = old.metadata.withoutOwner uid)) ∧
      new.metadata.withoutOwner uid = old.metadata.withoutOwner uid ∧
      ((∀ owner, old.metadata.controllerOwner? = some owner → owner.uid ≠ uid) →
        new.metadata.controllerOwner? = old.metadata.controllerOwner?) ∧
      new.unowned = old.unowned ∧
      ∀ namespaceName' name', (namespaceName', name') ≠ (n, name) →
        (w.cluster.patchOwners n name seen owners).2.operation? namespaceName' name' =
          w.cluster.operation? namespaceName' name' := by
  obtain rfl := Task.namespaceName_of_call hrest
  have hconsistent : w.Consistent := h.consistent turmoil_faithful hc
  obtain ⟨old, new, hstored, hwritten, hnew, hreplaces⟩ :=
    hconsistent.replaces_stored ht hrest heffect
  have hrestSame : new.unowned = old.unowned := by
    rw [hnew]
    rfl
  have helsewhere (namespaceName' name' : String)
      (hne : (namespaceName', name') ≠ (t.namespaceName, name)) :
      (w.cluster.patchOwners t.namespaceName name seen owners).2.operation? namespaceName' name' =
        w.cluster.operation? namespaceName' name' :=
    Cluster.operation?_patchOwners_of_ne hne
  cases hreplaces with
  | @claim hadvances uid _ _ _ huid _ _ _ _ hclaimed =>
    have howners : new.metadata.owners =
        old.metadata.withoutOwner uid ++ [holderReference t.requirement uid false] := by
      rw [hclaimed]
      rfl
    exact ⟨uid, old, new, huid, hstored, hwritten, .inl ⟨hadvances, howners⟩,
      Metadata.withoutOwner_eq_of_append howners rfl,
      Metadata.controllerOwner?_eq rfl (.inr howners), hrestSame, helsewhere⟩
  | @release hreleases uid _ huid hreleased =>
    have howners : new.metadata.owners = old.metadata.withoutOwner uid := by
      rw [hreleased]
      rfl
    exact ⟨uid, old, new, huid, hstored, hwritten, .inr ⟨hreleases, howners⟩,
      Metadata.withoutOwner_eq howners,
      Metadata.controllerOwner?_eq (r := holderReference t.requirement uid false) rfl
        (.inl howners), hrestSame, helsewhere⟩

/-- A requirement claims the operation of a stocked pool, and the cache still controls it. -/
theorem owners_written_sample :
    ∃ w, Reachable turmoil
        { cluster := Cluster.stocked "dev" "key" (searchingRequirement (some "key")) } w ∧
      ∃ t ∈ w.tasks, ∃ seen owners next,
        t.rest = .call t.namespaceName (.patchOwners "warm" seen owners) next ∧
        (w.cluster.patchOwners t.namespaceName "warm" seen owners).1 = .ok () ∧
        ∃ new,
          (w.cluster.patchOwners t.namespaceName "warm" seen owners).2.operation? t.namespaceName
            "warm" = some new ∧
          new.metadata.controllerOwner? =
            (warmOperation "dev" "key").metadata.controllerOwner? := by
  let r := searchingRequirement (some "key")
  let c := Cluster.stocked "dev" "key" r
  have hstock : c.Stocked "dev" "key" := Cluster.stocked_isStocked
  have hat : r.metadata.isAt "dev" "sample" = true := by decide
  have hstarts (former : List Cluster) :
      turmoil.starts { cluster := c, former := former } sampleOccasion r := trivial
  have hfirst : Leads turmoil { cluster := c } c [] := ⟨[], .refl⟩
  obtain ⟨t, ⟨former, hreach⟩, hsame, next, hrest⟩ :=
    hfirst.claimStock {} (fun _ => .inl rfl) hstarts hstock
      ⟨rfl, validate_sampleRequirement, rfl⟩ hat rfl rfl
  have hnamespace : t.namespaceName = "dev" := Task.namespaceName_eq (hsame ▸ hat)
  have heffect : (c.patchOwners t.namespaceName "warm" (natText 1)
      ((warmOperation "dev" "key").metadata.withOwner (holderReference r "sample" false))).1 =
      .ok () :=
    Cluster.patchOwners_stored (hnamespace ▸ hstock.operation?) rfl
  obtain ⟨uid, old, new, huid, hold, hnew, -, -, hcontroller, -, -⟩ :=
    owners_written Cluster.stocked_orderly hreach List.mem_cons_self hrest heffect
  have huid' : uid = "sample" := by
    rw [hsame] at huid
    exact (Option.some.inj huid).symm
  have hold' : old = warmOperation "dev" "key" :=
    Option.some.inj (hold.symm.trans (hnamespace ▸ hstock.operation?))
  subst huid' hold'
  refine ⟨_, hreach, t, List.mem_cons_self, _, _, next, hrest, heffect, new, hnew,
    hcontroller fun owner howner => ?_⟩
  obtain rfl : owner = ownerReference .cache (warmCache "dev" "key").metadata "cache" true :=
    (Option.some.inj howner).symm
  decide

/-! ### A controlling owner with the UID -/

/-- A cache that does not say its UID, so that it controls by its name. -/
def unlabelledCache : Cache :=
  { warmCache "dev" "key" with metadata := { (warmCache "dev" "key").metadata with uid := none } }

/-- An operation in its pool, with the UID of a requirement in the reference to the cache. -/
def usurpedOperation : Operation :=
  { warmOperation "dev" "key" with
    metadata :=
      { (warmOperation "dev" "key").metadata with
        ownerReferences :=
          some [ownerReference .cache unlabelledCache.metadata "sample" true] } }

/-- A cluster with that pool and the requirement. -/
def usurpedPool : Cluster where
  requirements := [searchingRequirement (some "key")]
  caches := [unlabelledCache]
  operations := [usurpedOperation]

theorem usurpedPool_orderly : usurpedPool.Orderly := by
  have hat : usurpedOperation.metadata.isAt "dev" "warm" = true := by decide
  exact Cluster.orderly_of_single rfl hat rfl (Nat.le_add_left 1 999)

/--
A claim that takes effect and does not only append: the reference to the controlling owner, which
has the UID of the requirement, is gone, and there is no other.
-/
theorem claim_of_controller :
    usurpedPool.Orderly ∧
    ∃ w, Reachable turmoil { cluster := usurpedPool } w ∧
      ∃ t ∈ w.tasks, ∃ seen owners next,
        t.rest = .call t.namespaceName (.patchOwners "warm" seen owners) next ∧
        AdvancesFrom t.requirement .cacheChecking ∧
        (w.cluster.patchOwners t.namespaceName "warm" seen owners).1 = .ok () ∧
        ∃ old new owner, w.cluster.operation? t.namespaceName "warm" = some old ∧
          (w.cluster.patchOwners t.namespaceName "warm" seen owners).2.operation? t.namespaceName
            "warm" = some new ∧
          old.metadata.controllerOwner? = some owner ∧ new.metadata.controllerOwner? = none ∧
          owner ∉ new.metadata.owners := by
  let r := searchingRequirement (some "key")
  have hat : r.metadata.isAt "dev" "sample" = true := by decide
  have hadvances : AdvancesFrom r .cacheChecking := ⟨rfl, validate_sampleRequirement, rfl⟩
  have hstarts (former : List Cluster) :
      turmoil.starts { cluster := usurpedPool, former := former } sampleOccasion r := trivial
  have hfirst : Leads turmoil { cluster := usurpedPool } usurpedPool [] := ⟨[], .refl⟩
  have hcache : usurpedPool.cache? "dev" (Cache.nameForKey "key") = some unlabelledCache :=
    List.find?_cons_of_pos (by simp [Metadata.isAt, unlabelledCache, warmCache])
  have hlist : usurpedPool.listOperations "dev" "key" = [usurpedOperation] := by
    refine List.filter_cons_of_pos ?_
    simp [Operation.hasLabel, usurpedOperation, warmOperation, StringMap.ofList, StringMap.get?,
      StringMap.insert, StringMap.insertEntry, StringMap.empty]
  have hop : usurpedPool.operation? "dev" "warm" = some usurpedOperation :=
    List.find?_cons_of_pos (by simp [Metadata.isAt, usurpedOperation, warmOperation])
  have hnone : Pool.claimedBy? "sample" (usurpedPool.listOperations "dev" "key") = none := by
    rw [hlist]
    rfl
  have hselect : Pool.select? unlabelledCache (usurpedPool.listOperations "dev" "key") =
      some usurpedOperation := by
    rw [hlist]
    rfl
  obtain ⟨t, ⟨former, hreach⟩, hsame, next, hrest⟩ :=
    (hfirst.start {} hstarts).claim (fun _ => .inl rfl) hadvances hat rfl hcache hnone hselect rfl
  have hnamespace : t.namespaceName = "dev" := Task.namespaceName_eq (hsame ▸ hat)
  have heffect : (usurpedPool.patchOwners t.namespaceName "warm" (natText 1)
      (usurpedOperation.metadata.withOwner (holderReference r "sample" false))).1 = .ok () :=
    Cluster.patchOwners_stored (hnamespace ▸ hop) rfl
  obtain ⟨old, hold, -, hnew⟩ := Cluster.patchOwners_ok heffect
  have hold' : old = usurpedOperation := Option.some.inj (hold.symm.trans (hnamespace ▸ hop))
  subst hold'
  exact ⟨usurpedPool_orderly, _, hreach, t, List.mem_cons_self, _, _, next, hrest,
    hsame ▸ hadvances, heffect, _, _, _, hold, hnew, rfl, rfl, by decide⟩

end WarmPool
