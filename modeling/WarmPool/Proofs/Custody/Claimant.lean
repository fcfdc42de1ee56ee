import WarmPool.Proofs.Custody.Surroundings

/-!
# What keeps a claim from being lost

The invariant of one requirement, looked at by its place and its UID (`Claimant.Custody`). Every
operation that it holds without controlling it is guarded by the stored requirement: the finalizer
is there, and the stored key is that of the label by which the operation is found again
(`Claimant.Guards`). A reconcile under way knows enough of the stored requirement and of the
operations held (`Claimant.Informs`). Both survive whatever spares the requirement
(`Claimant.Spares`): the reconciles of other requirements and the writes of others.
-/

namespace WarmPool

open Reconcile

/-- A requirement that may claim, by place and UID. -/
structure Claimant where
  namespaceName : String
  name : String
  uid : String

/-! ### Operations held -/

namespace Pool

variable {uid : String} {op op' : Operation}

theorem isClaimedBy_iff : isClaimedBy uid op = true ↔
    ∃ o ∈ op.metadata.owners,
      o.kind = Kind.requirement.name ∧ o.uid = uid ∧ o.isController = false := by
  unfold isClaimedBy Metadata.ownersOfKind
  simp

/-- An operation with no other references to a UID is claimed by it only if it was before. -/
theorem isClaimedBy_of_subset (h : ∀ o ∈ op'.metadata.owners, o.uid = uid → o ∈ op.metadata.owners)
    (hclaimed : isClaimedBy uid op' = true) : isClaimedBy uid op = true := by
  obtain ⟨o, ho, hkind, huid, hcontroller⟩ := isClaimedBy_iff.1 hclaimed
  exact isClaimedBy_iff.2 ⟨o, h o ho huid, hkind, huid, hcontroller⟩

end Pool

theorem Reconcile.isHeldBy_of_isClaimedBy {uid : String} {op : Operation}
    (h : Pool.isClaimedBy uid op = true)
    (hadvisory : ∀ o ∈ op.metadata.owners, o.uid = uid → o.isController = false) :
    isHeldBy uid op = true := by
  obtain ⟨o, ho, -, huid, -⟩ := Pool.isClaimedBy_iff.1 h
  unfold isHeldBy Metadata.findOwner?
  cases hfound : op.metadata.owners.find? fun r => r.uid = uid with
  | none =>
    have hne := List.find?_eq_none.1 hfound o ho
    exact absurd huid (by simpa using hne)
  | some first =>
    have hfirst := hadvisory first (List.mem_of_find?_eq_some hfound)
      (by simpa using List.find?_some hfound)
    simp [hfirst]

/-! ### The stored requirement -/

/--
A requirement that may search a pool, now or after losing its operation, has our finalizer, and its
key is stored unless it never gets to search.
-/
def Requirement.Sound (r : Requirement) : Prop :=
  (r.known.phase = .cacheChecking ∨
      (r.spec.enableCache = true ∧ (r.known.phase = .operating ∨ r.known.phase = .ready))) →
    r.hasFinalizer = true ∧
      (r.spec.validate = .ok () → r.isDeleting = false → r.known.key.isSome)

theorem Requirement.Touches.sound {r r' : Requirement} (h : Touches r r') (hr : r.Sound) :
    r'.Sound := by
  intro hphase
  rw [h.known, h.spec] at hphase
  obtain ⟨hfinalizer, hkey⟩ := hr hphase
  refine ⟨h.finalizer hfinalizer, fun hspec hdeleting => ?_⟩
  rw [h.known]
  rw [h.spec] at hspec
  refine hkey hspec ?_
  cases hbefore : r.isDeleting with
  | false => rfl
  | true => exact absurd (h.deleting hbefore) (by simp [hdeleting])

namespace Claimant

variable (x : Claimant) {c c' : Cluster} {t : Task} {op op' : Operation} {r r' : Requirement}

/-- The requirement as stored. -/
def stored? (c : Cluster) : Option Requirement := c.requirement? x.namespaceName x.name

/-- Whether this is the metadata of the requirement's place. -/
def isAt (m : Metadata) : Bool := m.isAt x.namespaceName x.name

/-- The stored requirement answers for an operation that it holds, and would find it again. -/
structure Guards (r : Requirement) (op : Operation) : Prop where
  finalizer : r.hasFinalizer = true
  spec : r.spec.validate = .ok ()
  phase : r.known.phase ≠ .initial
  key : ∃ key, r.known.key = some key ∧ op.hasLabel keyLabel key = true
  namespaceName : op.metadata.namespaceName = some x.namespaceName
  advisory : ∀ o ∈ op.metadata.owners, o.uid = x.uid → o.isController = false

/-- What a reconcile of the requirement may rely on. -/
structure Informs (c : Cluster) (t : Task) : Prop where
  uid : t.requirement.metadata.uid = some x.uid
  sound : t.requirement.Sound
  /-- The specification is the one read, and a deletion may have been asked for since. -/
  same : ∀ r, x.stored? c = some r →
    r.spec = t.requirement.spec ∧ (r.isDeleting = false → t.requirement.isDeleting = false)
  /-- Before its own write, the status is the one read. -/
  status : Unwritten t.past → ∀ r, x.stored? c = some r → r.status = t.requirement.status
  /-- A finalizer that was read or added is there, and so is the requirement. -/
  finalizer : t.requirement.isDeleting = false →
    (t.requirement.hasFinalizer = true ∨
      ⟨.addFinalizer t.requirement.name requirementFinalizer, .ok ()⟩ ∈ t.past) →
    ∃ r, x.stored? c = some r ∧ r.hasFinalizer = true
  /-- During a release, the stored requirement is known to be released by the key read. -/
  releasing : Releases t.requirement → ∀ r, x.stored? c = some r →
    (r.known.phase = .deleting ∨ r.known.phase = .deleted) ∧
      r.known.key = t.requirement.known.key
  /-- After a search that found nothing held, and before a claim, nothing is held. -/
  searched : AdvancesFrom t.requirement .cacheChecking → ∀ key operations,
    (⟨.listOperations key, .ok operations⟩ : Answered) ∈ t.past →
    Pool.claimedBy? x.uid operations = none →
    (∀ a ∈ t.past, ∀ name version owners, a.call ≠ .patchOwners name version owners) →
    ∀ op ∈ c.operations, Pool.isClaimedBy x.uid op = false
  /-- What is held still was seen held when a release listed it, and was not handed back. -/
  listed : Releases t.requirement → ∀ key operations,
    (⟨.listOperations key, .ok operations⟩ : Answered) ∈ t.past →
    ∀ op ∈ c.operations, Pool.isClaimedBy x.uid op = true →
      ∃ seen ∈ operations, seen.metadata.place = op.metadata.place ∧ isHeldBy x.uid seen = true ∧
        ∀ version owners, ⟨.patchOwners seen.name version owners, .ok ()⟩ ∉ t.past

/-- The invariant of the requirement. -/
structure Custody (w : World) : Prop where
  /-- The UID is that of no other requirement. -/
  known : ∀ r ∈ w.cluster.requirements, r.metadata.uid = some x.uid → x.isAt r.metadata = true
  stored : ∀ r, x.stored? w.cluster = some r → r.metadata.uid = some x.uid ∧ r.Sound
  others : ∀ t ∈ w.tasks, x.isAt t.requirement.metadata = false →
    t.requirement.metadata.uid ≠ some x.uid
  tasks : ∀ t ∈ w.tasks, x.isAt t.requirement.metadata = true → x.Informs w.cluster t
  guarded : ∀ op ∈ w.cluster.operations, Pool.isClaimedBy x.uid op = true →
    ∃ r, x.stored? w.cluster = some r ∧ x.Guards r op
  /-- At most one operation is held. -/
  single : ∀ op ∈ w.cluster.operations, ∀ op' ∈ w.cluster.operations,
    Pool.isClaimedBy x.uid op = true → Pool.isClaimedBy x.uid op' = true → op = op'

/-! ### What spares the requirement -/

/-- The requirement is at most touched between two states, and stays while it has our finalizer. -/
def Touched (c c' : Cluster) : Prop :=
  (∀ r', x.stored? c' = some r' → ∃ r, x.stored? c = some r ∧ Requirement.Touches r r') ∧
    ∀ r, x.stored? c = some r → r.hasFinalizer = true → ∃ r', x.stored? c' = some r'

/--
A change that at most touches the requirement and adds no operation to those that it holds; those
that it goes on holding keep their labels and get no new reference to it.
-/
structure Spares (c c' : Cluster) : Prop where
  touched : x.Touched c c'
  claims : ∀ op' ∈ c'.operations, Pool.isClaimedBy x.uid op' = true →
    ∃ op ∈ c.operations, op.metadata.place = op'.metadata.place ∧
      op'.metadata.labels = op.metadata.labels ∧
      ∀ o ∈ op'.metadata.owners, o.uid = x.uid → o ∈ op.metadata.owners

variable {x}

theorem touched_of_eq (h : x.stored? c' = x.stored? c) : x.Touched c c' :=
  ⟨fun r' hr' => ⟨r', h ▸ hr', .refl r'⟩, fun r hr _ => ⟨r, h.trans hr⟩⟩

theorem Spares.refl (x : Claimant) (c : Cluster) : x.Spares c c :=
  ⟨touched_of_eq rfl, fun op hop _ => ⟨op, hop, rfl, rfl, fun _ ho _ => ho⟩⟩

theorem Spares.claimed (h : x.Spares c c') (hop' : op' ∈ c'.operations)
    (hclaimed : Pool.isClaimedBy x.uid op' = true) :
    ∃ op ∈ c.operations, op.metadata.place = op'.metadata.place ∧
      op'.metadata.labels = op.metadata.labels ∧
      (∀ o ∈ op'.metadata.owners, o.uid = x.uid → o ∈ op.metadata.owners) ∧
      Pool.isClaimedBy x.uid op = true := by
  obtain ⟨op, hop, hplace, hlabels, howners⟩ := h.claims op' hop' hclaimed
  exact ⟨op, hop, hplace, hlabels, howners, Pool.isClaimedBy_of_subset howners hclaimed⟩

/-- A stored requirement with our finalizer stays, and keeps it. -/
theorem Spares.finalizer (h : x.Spares c c') (hr : x.stored? c = some r)
    (hfinalizer : r.hasFinalizer = true) :
    ∃ r', x.stored? c' = some r' ∧ Requirement.Touches r r' ∧ r'.hasFinalizer = true := by
  obtain ⟨r', hr'⟩ := h.touched.2 r hr hfinalizer
  obtain ⟨before, hbefore, htouches⟩ := h.touched.1 r' hr'
  rw [hr, Option.some.injEq] at hbefore
  subst hbefore
  exact ⟨r', hr', htouches, htouches.finalizer hfinalizer⟩

theorem Guards.spared (h : x.Guards r op) (htouches : Requirement.Touches r r')
    (hplace : op.metadata.place = op'.metadata.place)
    (hlabels : op'.metadata.labels = op.metadata.labels)
    (howners : ∀ o ∈ op'.metadata.owners, o.uid = x.uid → o ∈ op.metadata.owners) :
    x.Guards r' op' := by
  obtain ⟨key, hkey, hlabel⟩ := h.key
  refine ⟨htouches.finalizer h.finalizer, htouches.spec ▸ h.spec, htouches.known ▸ h.phase,
    ⟨key, htouches.known ▸ hkey, ?_⟩, ?_, fun o ho huid => h.advisory o (howners o ho huid) huid⟩
  · unfold Operation.hasLabel at hlabel ⊢
    rw [hlabels]
    exact hlabel
  · exact (congrArg Prod.fst hplace).symm.trans h.namespaceName

/-- What a reconcile relies on survives what spares its requirement. -/
theorem Informs.spared (h : x.Informs c t) (hspares : x.Spares c c') : x.Informs c' t := by
  refine ⟨h.uid, h.sound, fun r' hr' => ?_, fun hfirst r' hr' => ?_, fun hdeleting hfinalizer => ?_,
    fun hreleases r' hr' => ?_, fun hadvances key operations hlist hnone hfirst op' hop' => ?_,
    fun hreleases key operations hlist op' hop' hclaimed => ?_⟩
  · obtain ⟨r, hr, htouches⟩ := hspares.touched.1 r' hr'
    obtain ⟨hspec, hdeleting⟩ := h.same r hr
    refine ⟨htouches.spec.trans hspec, fun hdeleting' => hdeleting ?_⟩
    cases hbefore : r.isDeleting with
    | false => rfl
    | true => exact absurd (htouches.deleting hbefore) (by simp [hdeleting'])
  · obtain ⟨r, hr, htouches⟩ := hspares.touched.1 r' hr'
    exact htouches.status.trans (h.status hfirst r hr)
  · obtain ⟨r, hr, hhas⟩ := h.finalizer hdeleting hfinalizer
    obtain ⟨r', hr', -, hhas'⟩ := hspares.finalizer hr hhas
    exact ⟨r', hr', hhas'⟩
  · obtain ⟨r, hr, htouches⟩ := hspares.touched.1 r' hr'
    rw [htouches.known]
    exact h.releasing hreleases r hr
  · rw [Bool.eq_false_iff]
    intro hclaimed
    obtain ⟨op, hop, -, -, -, hbefore⟩ := hspares.claimed hop' hclaimed
    exact absurd hbefore (by simp [h.searched hadvances key operations hlist hnone hfirst op hop])
  · obtain ⟨op, hop, hplace, -, -, hbefore⟩ := hspares.claimed hop' hclaimed
    obtain ⟨seen, hseen, hseenPlace, hheld⟩ :=
      h.listed hreleases key operations hlist op hop hbefore
    exact ⟨seen, hseen, hseenPlace.trans hplace, hheld⟩

end Claimant

end WarmPool
