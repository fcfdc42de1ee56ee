import WarmPool.Proofs.Convergence
import WarmPool.Proofs.Lifetime
import WarmPool.Proofs.Ownership
import WarmPool.Proofs.Removal

/-!
# Deletion and the pool

What a deleted requirement leaves behind when nothing goes wrong. One reconcile announces the
deletion, if none has before, and the next hands back what is held and takes the finalizer away
(`deletion_returns_pool`). Each operation that was held loses one reference and nothing else, so
that the cache that controls it can give it to the next requirement (`Requirement.Leaves`).
-/

namespace WarmPool

open Reconcile

/-! ### Owners of distinct UIDs -/

namespace Metadata

variable {m : Metadata} {uid : String} {owner other : OwnerReference}

/-- Where no two owners share a UID, leaving out one leaves out a single reference. -/
theorem exists_split_of_findOwner? (hdistinct : (m.owners.map OwnerReference.uid).Nodup)
    (h : m.findOwner? uid = some owner) :
    ∃ before after, m.owners = before ++ owner :: after ∧ owner.uid = uid ∧
      m.withoutOwner uid = before ++ after := by
  obtain ⟨howner, before, after, hsplit, hbefore⟩ := List.find?_eq_some_iff_append.1 h
  have huid : owner.uid = uid := by simpa using howner
  refine ⟨before, after, hsplit, huid, ?_⟩
  rw [hsplit, List.map_append, List.map_cons, List.nodup_append, List.nodup_cons] at hdistinct
  have hfirst : before.filter (fun r => r.uid ≠ uid) = before :=
    List.filter_eq_self.2 fun r hr => by simpa using hbefore r hr
  have hlast : after.filter (fun r => r.uid ≠ uid) = after := by
    refine List.filter_eq_self.2 fun r hr => ?_
    have hne : r.uid ≠ owner.uid := fun hsame =>
      hdistinct.2.1.1 (hsame ▸ List.mem_map_of_mem hr)
    simpa [huid] using hne
  unfold withoutOwner
  rw [hsplit, List.filter_append, List.filter_cons_of_neg (by simp [huid]), hfirst, hlast]

theorem eq_of_findOwner? (hdistinct : (m.owners.map OwnerReference.uid).Nodup)
    (h : m.findOwner? uid = some owner) (hother : other ∈ m.owners) (huid : other.uid = uid) :
    other = owner := by
  have howner : owner.uid = uid := by simpa using List.find?_some h
  exact List.inj_on_of_nodup_map hdistinct hother (List.mem_of_find?_eq_some h)
    (huid.trans howner.symm)

end Metadata

namespace Reconcile

variable {uid : String} {op : Operation}

theorem isHeldBy_iff : isHeldBy uid op = true ↔
    ∃ owner, op.metadata.findOwner? uid = some owner ∧ owner.isController = false := by
  unfold isHeldBy
  cases op.metadata.findOwner? uid with
  | none => simp
  | some owner => simp

/-- An operation that a requirement controls is not one that it holds. -/
theorem isHeldBy_of_controller (hdistinct : (op.metadata.owners.map OwnerReference.uid).Nodup)
    {owner : OwnerReference} (howner : owner ∈ op.metadata.owners) (huid : owner.uid = uid)
    (hcontroller : owner.isController = true) : isHeldBy uid op = false := by
  rw [Bool.eq_false_iff]
  intro hheld
  obtain ⟨held, hfound, hplain⟩ := isHeldBy_iff.1 hheld
  rw [Metadata.eq_of_findOwner? hdistinct hfound howner huid, hplain] at hcontroller
  cases hcontroller

/-- Among distinct owners, one with the UID of a requirement that does not hold the operation
controls it. -/
theorem controller_of_not_held (hheld : isHeldBy uid op = false)
    (hdistinct : (op.metadata.owners.map OwnerReference.uid).Nodup) {owner : OwnerReference}
    (howner : owner ∈ op.metadata.owners) (huid : owner.uid = uid) :
    owner.isController = true := by
  cases hfound : op.metadata.findOwner? uid with
  | none => exact absurd huid (by simpa using List.find?_eq_none.1 hfound owner howner)
  | some first =>
    rw [Metadata.eq_of_findOwner? hdistinct hfound howner huid]
    cases hcontroller : first.isController with
    | true => rfl
    | false => exact absurd (isHeldBy_iff.2 ⟨first, hfound, hcontroller⟩) (by simp [hheld])

end Reconcile

/-! ### Back in the pool -/

/-- An operation that no other requirement holds can be claimed again once it is handed back. -/
theorem Pool.isAcquirable_of_returned {cache : Cache} {old new : Operation} {uid : String}
    (howners : new.metadata.owners = old.metadata.withoutOwner uid)
    (hrest : new.unowned = old.unowned)
    (hcontroller : ∀ owner, old.metadata.controllerOwner? = some owner → owner.uid ≠ uid)
    (hready : old.isReady = true) (htransferable : old.isTransferable = true)
    (hkept : old.metadata.deletionTimestamp = none)
    (hcache : old.metadata.controllerOwner?.map (ownedByCache cache) = some true)
    (hothers : ∀ owner ∈ old.metadata.ownersOfKind Kind.requirement.name, owner.uid = uid) :
    isAcquirable cache new = true := by
  have hstatus : new.status = old.status := congrArg (fun op => op.status) hrest
  have hdeletion : new.metadata.deletionTimestamp = none :=
    (congrArg (fun op => op.metadata.deletionTimestamp) hrest).trans hkept
  have hcontrolled : new.metadata.controllerOwner? = old.metadata.controllerOwner? := by
    unfold Metadata.controllerOwner?
    rw [howners]
    exact Metadata.find?_withoutOwner hcontroller
  have hnobody : new.metadata.ownersOfKind Kind.requirement.name = [] := by
    unfold Metadata.ownersOfKind
    rw [howners, List.filter_eq_nil_iff]
    intro owner howner hkind
    have hmem : owner ∈ old.metadata.owners := (List.mem_filter.1 howner).1
    exact Metadata.uid_ne_of_mem_withoutOwner howner
      (hothers owner (List.mem_filter.2 ⟨hmem, hkind⟩))
  have hready' : new.isReady = true := by
    rw [← hready]
    unfold Operation.isReady Operation.phase
    rw [hstatus]
  have htransferable' : new.isTransferable = true := by
    rw [← htransferable]
    unfold Operation.isTransferable
    rw [hstatus]
  unfold isAcquirable
  rw [hready', htransferable', hdeletion, hnobody, hcontrolled, hcache]
  rfl

/-! ### Handing back on a cluster -/

/-- A requirement lists the operations of its namespace that are labelled with its key. -/
def Requirement.Lists (r : Requirement) (op : Operation) : Prop :=
  op.metadata.namespaceName = r.metadata.namespaceName ∧
    ∃ key, r.known.key = some key ∧ op.hasLabel keyLabel key = true

/-- Of the operations that are held, the references to this UID go; the others stay as they are. -/
structure Frees (uid : String) (held : Operation → Prop) (old new : Operation) : Prop where
  freed : held old →
    new.metadata.owners = old.metadata.withoutOwner uid ∧ new.unowned = old.unowned
  kept : ¬ held old → new = old

theorem Frees.of_iff {uid : String} {held held' : Operation → Prop} {old new : Operation}
    (h : Frees uid held old new) (hiff : held old ↔ held' old) : Frees uid held' old new :=
  ⟨fun hold => h.freed (hiff.2 hold), fun hold => h.kept fun hheld => hold (hiff.1 hheld)⟩

/-- What becomes of an operation when the requirement with this UID goes. -/
structure Requirement.Leaves (r : Requirement) (uid : String) (old new : Operation) : Prop where
  /-- Where it was held, it loses the one reference by which it was, and nothing else. -/
  returned : r.Lists old → isHeldBy uid old = true → ∃ before owner after,
    old.metadata.owners = before ++ owner :: after ∧ owner.uid = uid ∧
      owner.isController = false ∧ new.metadata.owners = before ++ after ∧
      new.unowned = old.unowned
  /-- It can be claimed from the cache that controls it, if no other requirement holds it. -/
  acquirable : r.Lists old → isHeldBy uid old = true → ∀ cache, old.isReady = true →
    old.isTransferable = true → old.metadata.deletionTimestamp = none →
    old.metadata.controllerOwner?.map (Pool.ownedByCache cache) = some true →
    (∀ owner ∈ old.metadata.ownersOfKind Kind.requirement.name, owner.uid = uid) →
    Pool.isAcquirable cache new = true
  /-- Where the requirement controls it, it stays as it is. -/
  controlled : (∃ owner ∈ old.metadata.owners, owner.uid = uid ∧ owner.isController = true) →
    new = old
  /-- So does every other operation. -/
  untouched : ¬ (r.Lists old ∧ isHeldBy uid old = true) → new = old

theorem Frees.leaves {r : Requirement} {uid : String} {old new : Operation}
    (h : Frees uid (fun op => r.Lists op ∧ isHeldBy uid op = true) old new)
    (hdistinct : (old.metadata.owners.map OwnerReference.uid).Nodup) : r.Leaves uid old new := by
  refine ⟨fun hlists hheld => ?_,
    fun hlists hheld cache hready htransferable hkept hcache hothers => ?_,
    fun hcontrolled => h.kept fun hheld => ?_, h.kept⟩
  · obtain ⟨howners, hrest⟩ := h.freed ⟨hlists, hheld⟩
    obtain ⟨owner, hfound, hplain⟩ := isHeldBy_iff.1 hheld
    obtain ⟨before, after, hsplit, huid, hwithout⟩ :=
      Metadata.exists_split_of_findOwner? hdistinct hfound
    exact ⟨before, owner, after, hsplit, huid, hplain, howners.trans hwithout, hrest⟩
  · obtain ⟨howners, hrest⟩ := h.freed ⟨hlists, hheld⟩
    refine Pool.isAcquirable_of_returned howners hrest (fun owner howner huid => ?_) hready
      htransferable hkept hcache hothers
    have hnot := isHeldBy_of_controller hdistinct (List.mem_of_find?_eq_some howner) huid
      (List.find?_some howner)
    rw [hheld] at hnot
    cases hnot
  · obtain ⟨owner, howner, huid, hcontroller⟩ := hcontrolled
    have hnot := isHeldBy_of_controller hdistinct howner huid hcontroller
    rw [hheld.2] at hnot
    cases hnot

namespace Cluster

variable {c : Cluster} {namespaceName name : String} {op : Operation}

theorem patchOwners_of_stored {version : String}
    (hop : c.operation? namespaceName name = some op)
    (hversion : op.metadata.resourceVersion = some version) (owners : List OwnerReference) :
    c.patchOwners namespaceName name version owners =
      (.ok (), c.nextVersion.2.updateOperation namespaceName name
        fun op => (op.owned owners).stamped c.nextVersion.1) := by
  rw [patchOwners_eq, hop]
  simp only [hversion, ↓reduceIte]

/-- Other owners and another version leave operations tidy. -/
theorem Tidy.updateOperation (h : c.Tidy) (namespaceName name version : String)
    (owners : List OwnerReference) :
    (c.updateOperation namespaceName name fun op => (op.owned owners).stamped version).Tidy := by
  have hplaces : ((c.updateOperation namespaceName name fun op =>
        (op.owned owners).stamped version).operations.map fun op => op.metadata.place) =
      c.operations.map fun op => op.metadata.place := by
    refine List.map_map.trans (List.map_congr_left fun op _ => ?_)
    show Metadata.place (Operation.metadata (ite _ _ _)) = _
    split
    · rfl
    · rfl
  refine ⟨fun op hop => ?_, hplaces ▸ h.apart, fun op hop => ?_⟩
  · obtain ⟨old, hold, rfl⟩ := mem_updateWhere.1 hop
    split
    · exact h.placed old hold
    · exact h.placed old hold
  · obtain ⟨old, hold, rfl⟩ := mem_updateWhere.1 hop
    split
    · rfl
    · exact h.versioned old hold

/-- The operation is handed back: it is stored without its owner of that UID. -/
def handedBack (c : Cluster) (namespaceName uid : String) (op : Operation) : Cluster :=
  c.nextVersion.2.updateOperation namespaceName op.name fun x =>
    (x.owned (op.metadata.withoutOwner uid)).stamped c.nextVersion.1

theorem Tidy.handedBack (h : c.Tidy) (namespaceName uid : String) (op : Operation) :
    (c.handedBack namespaceName uid op).Tidy := by
  have hnext : c.nextVersion.2.Tidy := h.congr rfl
  exact hnext.updateOperation _ _ _ _

end Cluster

namespace Reconcile

variable {settings : Settings} {occasion : Occasion} {namespaceName name uid : String}
  {c : Cluster} {r : Requirement}

/-- What is stored as it was listed is handed back. -/
theorem release_performs {op : Operation} (uid : String) (htidy : c.Tidy) (hmem : op ∈ c.operations)
    (hnamespace : op.metadata.namespaceName = some namespaceName) :
    ∃ calls, (release namespaceName uid op).Performs namespaceName c () calls
      (c.handedBack namespaceName uid op) := by
  obtain ⟨version, hversion⟩ := Option.isSome_iff_exists.1 (htidy.versioned op hmem)
  have hfound := htidy.operation?_of_mem hmem hnamespace
  have hserve := Cluster.patchOwners_of_stored hfound hversion (op.metadata.withoutOwner uid)
  exact ⟨_, .orFail_bind hversion (.ask_bind hserve (.count_bind (.event .done)))⟩

/-- Every operation of a list is handed back if it is held, and no other is changed. -/
theorem releaseAll_performs {rest : List Operation} (htidy : c.Tidy)
    (hrest : ∀ op ∈ rest, op ∈ c.operations ∧ op.metadata.namespaceName = some namespaceName)
    (hapart : (rest.map fun op => op.metadata.place).Nodup) :
    ∃ calls c', (releaseAll namespaceName uid rest).Performs namespaceName c () calls c' ∧
      c'.requirements = c.requirements ∧
      List.Forall₂ (Frees uid fun op => op ∈ rest ∧ isHeldBy uid op = true)
        c.operations c'.operations := by
  -- By induction on what is still to be gone through, which is stored as it was listed.
  induction rest generalizing c with
  | nil =>
    exact ⟨[], c, .done, rfl, List.forall₂_same.2 fun op _ =>
      ⟨fun h => absurd h.1 List.not_mem_nil, fun _ => rfl⟩⟩
  | cons op rest ih =>
    obtain ⟨hmem, hnamespace⟩ := hrest op List.mem_cons_self
    obtain ⟨hfirst, hapart⟩ := List.nodup_cons.1 hapart
    unfold releaseAll
    by_cases hheld : isHeldBy uid op = true
    · rw [if_pos hheld]
      have hat := (Cluster.mem_of_operation? (htidy.operation?_of_mem hmem hnamespace)).2
      obtain ⟨_, hrelease⟩ := release_performs uid htidy hmem hnamespace
      -- The other operations are at other places.
      have hother {x : Operation} (hx : x ∈ rest) :
          ¬ x.metadata.isAt namespaceName op.name = true := fun hxAt =>
        hfirst (List.mem_map.2 ⟨x, hx,
          (Metadata.isAt_iff.1 hxAt).trans (Metadata.isAt_iff.1 hat).symm⟩)
      have hkept : ∀ x ∈ rest, x ∈ (c.handedBack namespaceName uid op).operations ∧
          x.metadata.namespaceName = some namespaceName := by
        intro x hx
        obtain ⟨hxMem, hxNamespace⟩ := hrest x (List.mem_cons_of_mem _ hx)
        exact ⟨mem_updateWhere.2 ⟨x, hxMem, if_neg (hother hx)⟩, hxNamespace⟩
      obtain ⟨calls, c', hperforms, hrequirements, hfrees⟩ :=
        ih (htidy.handedBack namespaceName uid op) hkept hapart
      refine ⟨_, c', hrelease.bind hperforms, hrequirements, ?_⟩
      have hall := (List.forall₂_and_left c.operations c'.operations).2
        ⟨fun x hx => hx, List.forall₂_map_left_iff.1 hfrees⟩
      refine hall.imp fun x new hboth => ?_
      obtain ⟨hx, hfreed⟩ := hboth
      by_cases hxAt : x.metadata.isAt namespaceName op.name = true
      · -- It is the operation that was handed back first, and not handed back again.
        obtain rfl : x = op := List.inj_on_of_nodup_map htidy.apart hx hmem
          ((Metadata.isAt_iff.1 hxAt).trans (Metadata.isAt_iff.1 hat).symm)
        rw [if_pos hxAt] at hfreed
        obtain rfl := hfreed.kept fun hagain => hother hagain.1 hxAt
        exact ⟨fun _ => ⟨rfl, rfl⟩, fun hnot => absurd ⟨List.mem_cons_self, hheld⟩ hnot⟩
      · rw [if_neg hxAt] at hfreed
        refine hfreed.of_iff (and_congr_left fun _ => ?_)
        rw [List.mem_cons, or_iff_right fun hsame : x = op => hxAt (hsame ▸ hat)]
    · rw [if_neg hheld]
      obtain ⟨calls, c', hperforms, hrequirements, hfrees⟩ :=
        ih htidy (fun x hx => hrest x (List.mem_cons_of_mem _ hx)) hapart
      refine ⟨calls, c', hperforms, hrequirements, hfrees.imp fun x new h => h.of_iff ?_⟩
      refine and_congr_left fun hxHeld => ?_
      rw [List.mem_cons, or_iff_right fun hsame : x = op => hheld (hsame ▸ hxHeld)]

/-- What a requirement holds under its key is handed back, and no other operation is changed. -/
theorem releaseClaims_performs (htidy : c.Tidy)
    (hplace : r.metadata.namespaceName = some namespaceName) (huid : r.metadata.uid = some uid) :
    ∃ calls c', (releaseClaims r r.known).Performs namespaceName c () calls c' ∧
      c'.requirements = c.requirements ∧
      List.Forall₂ (Frees uid fun op => r.Lists op ∧ isHeldBy uid op = true)
        c.operations c'.operations := by
  obtain rfl : r.namespaceName = namespaceName := Requirement.namespaceName_of_some hplace
  unfold releaseClaims
  cases hkey : r.known.key with
  | none =>
    refine ⟨[], c, .done, rfl, List.forall₂_same.2 fun op _ => ⟨fun hheld => ?_, fun _ => rfl⟩⟩
    obtain ⟨⟨-, key, hsome, -⟩, -⟩ := hheld
    exact absurd (hkey.symm.trans hsome) (by simp)
  | some key =>
    have hlist : ∀ op ∈ c.listOperations r.namespaceName key,
        op ∈ c.operations ∧ op.metadata.namespaceName = some r.namespaceName := by
      intro op hop
      obtain ⟨hmem, hlisted⟩ := List.mem_filter.1 hop
      exact ⟨hmem, of_decide_eq_true (Bool.and_eq_true_iff.1 hlisted).1⟩
    have hapart : ((c.listOperations r.namespaceName key).map fun op => op.metadata.place).Nodup :=
      htidy.apart.sublist (List.filter_sublist.map _)
    obtain ⟨calls, c', hperforms, hrequirements, hfrees⟩ :=
      @releaseAll_performs r.namespaceName uid c _ htidy hlist hapart
    refine ⟨_, c', .orFail_bind huid
      (.ask_bind (Cluster.serve_listOperations c r.namespaceName key) hperforms), hrequirements, ?_⟩
    have hall := (List.forall₂_and_left c.operations c'.operations).2 ⟨fun x hx => hx, hfrees⟩
    refine hall.imp fun op new ⟨hop, hfreed⟩ => hfreed.of_iff (and_congr_left fun _ => ?_)
    unfold Cluster.listOperations Requirement.Lists
    rw [List.mem_filter, Bool.and_eq_true, decide_eq_true_iff, hplace, hkey]
    simp [hop]

/-! ### The finalizer -/

/-- A status is written without a change to the finalizers. -/
theorem commit_keeps_finalizers {s : RequirementStatus} (h : c.Stores namespaceName r)
    (hs : s.Timely) {written : Bool} {calls : List Call} {c' : Cluster} {r' : Requirement}
    (hperforms : (commit r s).Performs namespaceName c written calls c')
    (hstores : c'.requirement? namespaceName r.name = some r') :
    r'.metadata.finalizers = r.metadata.finalizers := by
  obtain rfl := h.namespaceName_eq
  unfold commit at hperforms
  split at hperforms
  · cases hperforms
    rw [Option.some.inj (hstores.symm.trans h.stored)]
  · cases hperforms with
    | call hserve hdone =>
      have hok := Cluster.patchStatus_ok h.stored (observed r s)
      obtain ⟨hreply, rfl⟩ := Prod.mk.inj hserve
      obtain rfl := hreply.symm.trans hok
      cases hdone
      have hs' : (observed r s).Timely := hs
      have hafter : (c.patchStatus r.namespaceName r.name (observed r s)).2.requirement?
          r.namespaceName r.name =
          (c.requirement? r.namespaceName r.name).map (·.withStatus (observed r s)) :=
        Cluster.requirement?_patchStatus h.timely hs'
      rw [h.stored] at hafter
      obtain rfl : r' = r.withStatus (observed r s) :=
        Option.some.inj (hstores.symm.trans hafter)
      rw [Requirement.withStatus_eq h.requirement_timely.1 hs']
      rfl

/-- Once its deletion was announced, a requirement hands back what it holds and gives up its
finalizer. -/
theorem delete_performs (h : c.Stores namespaceName r) (htidy : c.Tidy) (hreleases : Releases r)
    (huid : r.metadata.uid = some uid) :
    ∃ calls c' r', (delete r r.known).Performs namespaceName c .awaitChange calls c' ∧
      r.Alike r' ∧ r'.metadata.finalizers = r.metadata.finalizers ∧
      c'.requirement? namespaceName r.name = r'.giveUp requirementFinalizer ∧
      List.Forall₂ (Frees uid fun op => r.Lists op ∧ isHeldBy uid op = true)
        c.operations c'.operations := by
  obtain rfl := h.namespaceName_eq
  obtain ⟨calls₁, c₁, hclaims, hrequirements, hfrees⟩ :=
    releaseClaims_performs htidy (Metadata.namespaceName_of_isAt h.isAt) huid
  have h₁ : c₁.Stores r.namespaceName r := h.congr hrequirements
  have hs : RequirementStatus.Timely { r.known with phase := .deleted } := h.requirement_timely.2
  obtain ⟨written, c₂, r', hcommit, hreported⟩ := commit_performs h₁ hs (.refl r) rfl
  have hstored : c₂.requirement? r.namespaceName r.name = some r' :=
    hreported.stores.of_alike hreported.alike h.isAt
  let c₃ := c₂.removeFinalizer r.namespaceName r.name requirementFinalizer
  obtain ⟨calls, hperforms⟩ : ∃ calls,
      (delete r r.known).Performs r.namespaceName c .awaitChange calls c₃ := by
    unfold delete
    rw [if_neg (by simp [hreleases.2.1]), if_pos hreleases.2.2]
    exact ⟨_, hclaims.bind (hcommit.bind (.ask_bind rfl .done))⟩
  refine ⟨calls, c₃, r', hperforms, hreported.alike,
    commit_keeps_finalizers h₁ hs hcommit hstored,
    Cluster.requirement?_removeFinalizer_of_stored hstored _, ?_⟩
  unfold c₃
  rw [Cluster.operations_removeFinalizer, hreported.operations]
  exact hfrees

/-- A deletion is announced in the status, and nothing else changes. -/
theorem delete_performs_announcement (h : c.Stores namespaceName r)
    (hfinalizer : r.hasFinalizer = true)
    (hphase : ¬ (r.known.phase = .deleting ∨ r.known.phase = .deleted)) :
    ∃ calls c' r', (delete r r.known).Performs namespaceName c (.requeue .zero) calls c' ∧
      c'.Stores namespaceName r' ∧ r.Alike r' ∧
      r'.metadata.finalizers = r.metadata.finalizers ∧ r'.known.phase = .deleting ∧
      r'.known.key = r.known.key ∧ c'.operations = c.operations := by
  have hs : RequirementStatus.Timely { r.known with phase := .deleting } := h.requirement_timely.2
  obtain ⟨written, c', r', hcommit, hreported⟩ := commit_performs h hs (.refl r) rfl
  have hstored : c'.requirement? namespaceName r.name = some r' :=
    hreported.stores.of_alike hreported.alike h.isAt
  obtain ⟨calls, hperforms⟩ : ∃ calls,
      (delete r r.known).Performs namespaceName c (.requeue .zero) calls c' := by
    unfold delete
    rw [if_neg (by simp [hfinalizer]), if_neg hphase]
    exact ⟨_, hcommit.bind .done⟩
  refine ⟨calls, c', r', hperforms, hreported.stores, hreported.alike,
    commit_keeps_finalizers h hs hcommit hstored, ?_, ?_, hreported.operations⟩
  · rw [hreported.known, RequirementStatus.laidOver_phase]
    rfl
  · rw [hreported.known, RequirementStatus.laidOver_key]
    exact Option.or_self

end Reconcile

namespace Requirement

variable {r : Requirement}

/-- The finalizers that others have put on a requirement. -/
def otherFinalizers (r : Requirement) : List String :=
  (r.metadata.finalizers.getD []).filter (· ≠ requirementFinalizer)

/-- A deleted requirement goes with its last finalizer, and keeps the others until then. -/
theorem giveUp_of_isDeleting (hdeleting : r.isDeleting = true) (h : r.hasFinalizer = true) :
    (r.otherFinalizers = [] → r.giveUp requirementFinalizer = none) ∧
      (r.otherFinalizers ≠ [] → ∃ r', r.giveUp requirementFinalizer = some r' ∧ r.Alike r' ∧
        r'.metadata.finalizers = some r.otherFinalizers) := by
  have hdropped :
      (r.dropFinalizer requirementFinalizer).metadata.finalizers = some r.otherFinalizers := by
    unfold dropFinalizer otherFinalizers
    cases hfinalizers : r.metadata.finalizers with
    | none => exact absurd (hasFinalizer_iff.1 h) (by simp [hfinalizers])
    | some finalizers => rfl
  have hgone :
      Cluster.isGone (r.dropFinalizer requirementFinalizer) = r.otherFinalizers.isEmpty := by
    unfold Cluster.isGone
    rw [hdropped, show (r.dropFinalizer requirementFinalizer).isDeleting = true from hdeleting]
    rfl
  have hgiveUp : r.giveUp requirementFinalizer =
      if r.otherFinalizers.isEmpty then none else some (r.dropFinalizer requirementFinalizer) := by
    unfold giveUp
    rw [if_neg (by simpa [hasFinalizer] using h), hgone]
  refine ⟨fun hnone => ?_, fun hsome => ?_⟩
  · rw [hgiveUp, if_pos (by simp [hnone])]
  · refine ⟨r.dropFinalizer requirementFinalizer, ?_, ⟨rfl, rfl, rfl, rfl, rfl, id⟩, hdropped⟩
    rw [hgiveUp, if_neg (by simpa using hsome)]

end Requirement

/-! ### The whole deletion -/

/-- What a cluster has come to when a requirement with this UID has given up its finalizer. -/
structure Cluster.Dismisses (c : Cluster) (namespaceName name : String) (r : Requirement)
    (uid : String) (c' : Cluster) : Prop where
  /-- The requirement is gone if nobody else has put a finalizer on it. -/
  gone : r.otherFinalizers = [] → c'.requirement? namespaceName name = none
  /-- Otherwise it has the other finalizers. -/
  kept : r.otherFinalizers ≠ [] → ∃ r', c'.requirement? namespaceName name = some r' ∧
    r.Alike r' ∧ r'.metadata.finalizers = some r.otherFinalizers
  /-- It holds nothing of what has its key; what refers to it is controlled by it. -/
  unheld : ∀ op ∈ c'.operations, r.Lists op → ∀ owner ∈ op.metadata.owners, owner.uid = uid →
    owner.isController = true
  leaves : List.Forall₂ (r.Leaves uid) c.operations c'.operations

namespace Requirement

variable {c c' : Cluster} {namespaceName name uid : String} {r r' : Requirement}

theorem hasFinalizer_congr (h : r'.metadata.finalizers = r.metadata.finalizers) :
    r'.hasFinalizer = r.hasFinalizer := by
  unfold hasFinalizer Metadata.hasFinalizer
  rw [h]

theorem lists_congr (halike : r.Alike r') (hkey : r'.known.key = r.known.key) (op : Operation) :
    r'.Lists op ↔ r.Lists op := by
  have hnamespace : r'.metadata.namespaceName = r.metadata.namespaceName :=
    congrArg Prod.fst halike.place
  unfold Lists
  rw [hkey, hnamespace]

/-- A requirement is dismissed once it has given up its finalizer and what it held is freed. -/
theorem dismisses (hdeleting : r.isDeleting = true) (hfinalizer : r.hasFinalizer = true)
    (hdistinct : ∀ op ∈ c.operations, (op.metadata.owners.map OwnerReference.uid).Nodup)
    (halike : r.Alike r') (hfinalizers : r'.metadata.finalizers = r.metadata.finalizers)
    (hgiven : c'.requirement? namespaceName name = r'.giveUp requirementFinalizer)
    (hfrees : List.Forall₂ (Frees uid fun op => r.Lists op ∧ isHeldBy uid op = true)
      c.operations c'.operations) :
    c.Dismisses namespaceName name r uid c' := by
  have hothers : r'.otherFinalizers = r.otherFinalizers := by
    unfold otherFinalizers
    rw [hfinalizers]
  obtain ⟨hgone, hkept⟩ := giveUp_of_isDeleting (halike.deleting.trans hdeleting)
    ((hasFinalizer_congr hfinalizers).trans hfinalizer)
  rw [hothers] at hgone hkept
  have hall := (List.forall₂_and_left c.operations c'.operations).2 ⟨hdistinct, hfrees⟩
  refine ⟨fun hnone => hgiven.trans (hgone hnone), fun hsome => ?_,
    fun op hop hlists owner howner huid => ?_, hall.imp fun old new h => h.2.leaves h.1⟩
  · obtain ⟨r'', hgiveUp, halike', hrest⟩ := hkept hsome
    exact ⟨r'', hgiven.trans hgiveUp, halike.trans halike', hrest⟩
  · obtain ⟨old, -, hold, hfreed⟩ := exists_of_forall₂ hall hop
    by_cases hheld : r.Lists old ∧ isHeldBy uid old = true
    · rw [(hfreed.freed hheld).1] at howner
      exact absurd huid (Metadata.uid_ne_of_mem_withoutOwner howner)
    · obtain rfl := hfreed.kept hheld
      have hnot : isHeldBy uid op = false := by simpa [hlists] using hheld
      exact controller_of_not_held hnot hold howner huid

end Requirement

/-- A reconcile of a deleted requirement carries out its deletion. -/
theorem Reconcile.round_of_deletion {settings : Settings} {occasion : Occasion}
    {namespaceName name : String} {c c' : Cluster} {r : Requirement} {action : Action}
    {calls : List Call} (h : c.Stores namespaceName r)
    (hat : r.metadata.isAt namespaceName name = true) (hdeleting : r.isDeleting = true)
    (hperforms : (delete r r.known).Performs namespaceName c action calls c') :
    Rehearsal.round settings namespaceName name occasion c = (.ok action, calls, c') := by
  have hplan : plan settings occasion r = delete r r.known :=
    plan_of_isDeleting hdeleting (Metadata.isSome_namespaceName hat)
  exact Rehearsal.round_of_performs h hat (hplan ▸ hperforms)

/--
A deleted requirement is reconciled and nothing goes wrong. Whatever its phase and its
specification, after one reconcile or two it has given up its finalizer, and the operations that it
held under its key are back in their pools.
-/
theorem deletion_returns_pool {settings : Settings} {occasions : ℕ → Occasion}
    {namespaceName name uid : String} {c : Cluster} {r : Requirement}
    (hstored : c.requirement? namespaceName name = some r)
    (hinstants : ∀ x ∈ c.requirements, x.Timely) (htidy : c.Tidy)
    (hdistinct : ∀ op ∈ c.operations, (op.metadata.owners.map OwnerReference.uid).Nodup)
    (huid : r.metadata.uid = some uid) (hdeleting : r.isDeleting = true)
    (hfinalizer : r.hasFinalizer = true) :
    ∃ n ≤ 2,
      (∀ i < n, ∃ action,
        (Rehearsal.roundAt settings namespaceName name occasions c i).1 = .ok action) ∧
      c.Dismisses namespaceName name r uid
        (Rehearsal.clusterAt settings namespaceName name occasions c n) := by
  have h : c.Stores namespaceName r := .of_stored hstored hinstants
  have hat := (Cluster.mem_of_requirement? hstored).2
  have hname : r.name = name := Metadata.anyName_of_isAt hat
  by_cases hphase : r.known.phase = .deleting ∨ r.known.phase = .deleted
  · obtain ⟨calls, c', r', hperforms, halike, hfinalizers, hgiven, hfrees⟩ :=
      delete_performs h htidy ⟨hdeleting, hfinalizer, hphase⟩ huid
    have hround : Rehearsal.roundAt settings namespaceName name occasions c 0 =
        (.ok .awaitChange, calls, c') := round_of_deletion h hat hdeleting hperforms
    have hcluster : Rehearsal.clusterAt settings namespaceName name occasions c 1 = c' :=
      congrArg (fun x => x.2.2) hround
    refine ⟨1, by omega, fun i hi => ?_, ?_⟩
    · obtain rfl : i = 0 := by omega
      exact ⟨_, congrArg Prod.fst hround⟩
    · rw [hcluster]
      exact Requirement.dismisses hdeleting hfinalizer hdistinct halike hfinalizers
        (hname ▸ hgiven) hfrees
  · -- The deletion is announced first, which leaves everything else as it is.
    obtain ⟨calls₁, c₁, r₁, hannounces, hstores, halike₁, hfinalizers₁, hphase₁, hkey, hsame⟩ :=
      delete_performs_announcement h hfinalizer hphase
    have hround₁ : Rehearsal.roundAt settings namespaceName name occasions c 0 =
        (.ok (.requeue .zero), calls₁, c₁) := round_of_deletion h hat hdeleting hannounces
    have hcluster₁ : Rehearsal.clusterAt settings namespaceName name occasions c 1 = c₁ :=
      congrArg (fun x => x.2.2) hround₁
    have hat₁ := halike₁.isAt hat
    have hdeleting₁ := halike₁.deleting.trans hdeleting
    have hfinalizer₁ := (Requirement.hasFinalizer_congr hfinalizers₁).trans hfinalizer
    obtain ⟨calls, c', r', hperforms, halike, hfinalizers, hgiven, hfrees⟩ :=
      delete_performs hstores (htidy.congr hsame) ⟨hdeleting₁, hfinalizer₁, .inl hphase₁⟩
        (halike₁.uid.trans huid)
    have hround : Rehearsal.roundAt settings namespaceName name occasions c 1 =
        (.ok .awaitChange, calls, c') := by
      unfold Rehearsal.roundAt
      rw [hcluster₁]
      exact round_of_deletion hstores hat₁ hdeleting₁ hperforms
    have hcluster : Rehearsal.clusterAt settings namespaceName name occasions c 2 = c' :=
      congrArg (fun x => x.2.2) hround
    have hname₁ : r₁.name = name := Metadata.anyName_of_isAt hat₁
    refine ⟨2, le_rfl, fun i hi => ?_, ?_⟩
    · rcases (by omega : i = 0 ∨ i = 1) with rfl | rfl
      · exact ⟨_, congrArg Prod.fst hround₁⟩
      · exact ⟨_, congrArg Prod.fst hround⟩
    · rw [hcluster]
      rw [hsame] at hfrees
      exact Requirement.dismisses hdeleting hfinalizer hdistinct (halike₁.trans halike)
        (hfinalizers.trans hfinalizers₁) (hname₁ ▸ hgiven) (hfrees.imp fun old new h =>
          h.of_iff (and_congr_left' (Requirement.lists_congr halike₁ hkey old)))

/-- The sample is to be deleted while it searches, having claimed the operation of the pool. -/
def forsakenRequirement : Requirement :=
  (searchingRequirement (some "key")).deletedAt sampleOccasion.now

/-- A cluster with that requirement, the pool and the operation claimed from it. -/
def forsakenCluster : Cluster where
  requirements := [forsakenRequirement]
  caches := [warmCache "dev" "key"]
  operations := [claimedOperation]

/-- Two reconciles later the requirement is gone, and the operation can be claimed again. -/
theorem deletion_returns_pool_sample : ∃ n ≤ 2, ∃ op,
    let c := Rehearsal.clusterAt {} "dev" "sample" (fun _ => sampleOccasion) forsakenCluster n
    c.requirement? "dev" "sample" = none ∧ c.operations = [op] ∧
      Pool.isAcquirable (warmCache "dev" "key") op = true := by
  have htimely : forsakenRequirement.Timely :=
    ((searchingRequirement (some "key")).touches_deletedAt
      (show sampleOccasion.now.Valid by decide)).timely (searchingRequirement_timely _)
  have htidy : forsakenCluster.Tidy := by
    refine ⟨fun op hop => ⟨"dev", "warm", ?_⟩, List.nodup_singleton _, fun op hop => ?_⟩
    · rw [List.mem_singleton.1 hop]
      rfl
    · rw [List.mem_singleton.1 hop]
      rfl
  have hdistinct : ∀ op ∈ forsakenCluster.operations,
      (op.metadata.owners.map OwnerReference.uid).Nodup := by
    intro op hop
    rw [List.mem_singleton.1 hop]
    decide
  obtain ⟨n, hn, -, hgone, -, -, hleaves⟩ := @deletion_returns_pool {} (fun _ => sampleOccasion)
    "dev" "sample" "sample" forsakenCluster forsakenRequirement rfl
    (fun x hx => List.mem_singleton.1 hx ▸ htimely) htidy hdistinct rfl rfl rfl
  obtain ⟨op, rest, hop, hrest, hsame⟩ := List.forall₂_cons_left_iff.1 hleaves
  rw [List.forall₂_nil_left_iff.1 hrest] at hsame
  have hlists : forsakenRequirement.Lists claimedOperation := ⟨rfl, "key", rfl, rfl⟩
  refine ⟨n, hn, op, hgone rfl, hsame, ?_⟩
  refine hop.acquirable hlists rfl (warmCache "dev" "key") rfl rfl rfl rfl fun owner howner => ?_
  obtain rfl : owner = holderReference sampleRequirement "sample" false :=
    List.mem_singleton.1 howner
  rfl

end WarmPool
