import WarmPool.Proofs.Move

/-!
# How a reconcile goes on

The first calls of a reconcile, and what it goes on with once they are answered: taking a
requirement in, claiming from a pool or recording what is held, following the bound operation, and
seeing to a deletion. A status to be written is described by what becomes of its phase, its key and
the validity of its instants.
-/

namespace WarmPool.Reconcile

variable {settings : Settings} {occasion : Occasion} {r : Requirement}

theorem plan_of_advancesFrom {phase : RequirementPhase} (h : AdvancesFrom r phase)
    (hplace : r.metadata.namespaceName.isSome) :
    plan settings occasion r = advance settings occasion r r.known := by
  obtain ⟨hdeleting, hspec, -⟩ := h
  unfold plan
  rw [if_neg (by simp [Option.isSome_iff_ne_none.1 hplace]), if_neg (by simp [hdeleting]), hspec]
  rfl

theorem plan_of_isDeleting (h : r.isDeleting = true) (hplace : r.metadata.namespaceName.isSome) :
    plan settings occasion r = delete r r.known := by
  unfold plan
  rw [if_neg (by simp [Option.isSome_iff_ne_none.1 hplace]), if_pos h]
  rfl

theorem plan_of_invalid (hkept : r.isDeleting = false) {e : Error}
    (hspec : r.spec.validate = .error e) (hplace : r.metadata.namespaceName.isSome) :
    plan settings occasion r = reportInvalid r r.known (e.forResource r.name) occasion.now := by
  unfold plan
  rw [if_neg (by simp [Option.isSome_iff_ne_none.1 hplace]), if_neg (by simp [hkept]), hspec]
  rfl

/-- A status of another phase is written. -/
theorem commit_of_phase {s : RequirementStatus} (h : r.known.phase ≠ s.phase) :
    commit r s = Plan.ask r.namespaceName (.patchStatus r.name (observed r s)) >>=
      fun _ => pure true := by
  unfold commit
  refine if_neg fun hsame => h ?_
  rw [Requirement.known_of_status hsame]
  rfl

/-! ### Taking in -/

/-- A new requirement gets our finalizer and then, with caching, a status that has its key. -/
theorem plan_of_initial (h : AdvancesFrom r .initial) (hplace : r.metadata.namespaceName.isSome)
    (hfinalizer : r.hasFinalizer = false) (hcache : r.spec.enableCache = true) :
    ∃ next, plan settings occasion r =
        .call r.namespaceName (.addFinalizer r.name requirementFinalizer) next ∧
      ∃ s next', next (.ok ()) = .call r.namespaceName (.patchStatus r.name s) next' ∧
        s.phase = .cacheChecking ∧ s.key = some r.spec.template.key ∧
        (r.known.Timely → occasion.now.Valid → s.Timely) := by
  let key := r.spec.template.key
  let status : RequirementStatus :=
    { (r.known.taken key occasion.now).cacheUnknown (Cache.nameForKey key) occasion.now with
      key := some key
      phase := .cacheChecking }
  have hchanges : r.known.phase ≠ status.phase := by
    rw [h.2.2]
    exact RequirementPhase.noConfusion
  have hplan : plan settings occasion r =
      Plan.ask r.namespaceName (.addFinalizer r.name requirementFinalizer) >>= fun _ =>
        commitThen r status .zero := by
    rw [plan_of_advancesFrom h hplace]
    unfold advance
    rw [h.2.2]
    unfold takeIn
    simp only [hfinalizer, hcache, Bool.false_eq_true, ↓reduceIte]
    rfl
  rw [hplan]
  unfold commitThen
  rw [commit_of_phase hchanges]
  refine ⟨_, rfl, _, _, rfl, rfl, rfl, fun hknown hnow => ?_⟩
  exact (hknown.withCondition hnow _ _ _ _).withCondition hnow _ _ _ _

/-! ### Searching a pool -/

/-- A claim is recorded by binding its operation. -/
theorem recordClaim_call {s : RequirementStatus} {cache operation : String} {now : Timestamp}
    (hphase : r.known.phase = .cacheChecking) :
    ∃ s' next, recordClaim settings r s cache operation now =
        .call r.namespaceName (.patchStatus r.name s') next ∧
      next (.ok ()) = .done (.ok (.requeue settings.readinessPoll)) ∧ s'.phase = .operating ∧
      s'.operationName = some operation ∧ (s.Timely → now.Valid → s'.Timely) := by
  unfold recordClaim commitThen
  rw [commit_of_phase (by simp [hphase])]
  exact ⟨_, _, rfl, rfl, rfl, rfl, fun hs hnow => hs.withCondition hnow _ _ _ _⟩

/-- What is selected from a pool is claimed, unless something is held already. -/
theorem searchPool_call {s : RequirementStatus} {now : Timestamp} {key uid : String}
    {cache : Cache} :
    ∃ next, searchPool settings r s key uid cache now =
        .call r.namespaceName (.listOperations key) next ∧
      (∀ operations op, Pool.claimedBy? uid operations = some op →
        next (.ok operations) = recordClaim settings r (s.cacheFound (Cache.nameForKey key) now)
          (Cache.nameForKey key) op.name now) ∧
      ∀ operations op version, Pool.claimedBy? uid operations = none →
        Pool.select? cache operations = some op → op.metadata.resourceVersion = some version →
        ∃ next', next (.ok operations) =
          .call r.namespaceName (.patchOwners op.name version
            (op.metadata.withOwner (holderReference r uid false))) next' := by
  refine ⟨_, rfl, fun operations op hheld => ?_,
    fun operations op version hnone hselect hversion => ?_⟩
  · rw [Plan.bind]
    simp only [hheld]
  · rw [Plan.bind]
    simp only [hnone, hselect]
    unfold claim versionOf
    rw [hversion]
    exact ⟨_, rfl⟩

/--
A requirement that searches a pool looks for its cache and lists the operations of its key. If it
holds one of them already, it records that one, and otherwise it claims the one that is selected.
-/
theorem plan_of_cacheChecking (h : AdvancesFrom r .cacheChecking)
    (hplace : r.metadata.namespaceName.isSome) {uid : String} (huid : r.metadata.uid = some uid) :
    ∃ next, plan settings occasion r =
        .call r.namespaceName (.getCache (Cache.nameForKey (soughtKey r r.known))) next ∧
      ∀ cache, ∃ next', next (.ok (some cache)) =
          .call r.namespaceName (.listOperations (soughtKey r r.known)) next' ∧
        (∀ operations op, Pool.claimedBy? uid operations = some op →
          ∃ s next'',
            next' (.ok operations) = .call r.namespaceName (.patchStatus r.name s) next'' ∧
            next'' (.ok ()) = .done (.ok (.requeue settings.readinessPoll)) ∧
            s.phase = .operating ∧ s.operationName = some op.name ∧
            (r.known.Timely → occasion.now.Valid → s.Timely)) ∧
        ∀ operations op version, Pool.claimedBy? uid operations = none →
          Pool.select? cache operations = some op → op.metadata.resourceVersion = some version →
          ∃ next'', next' (.ok operations) =
            .call r.namespaceName (.patchOwners op.name version
              (op.metadata.withOwner (holderReference r uid false))) next'' := by
  let key := soughtKey r r.known
  let looking : RequirementStatus := { r.known with key := some key }
  obtain ⟨next, hplan, hnext⟩ : ∃ next, plan settings occasion r =
      .call r.namespaceName (.getCache (Cache.nameForKey key)) next ∧
      ∀ cache, next (.ok (some cache)) =
        searchPool settings r looking key uid cache occasion.now := by
    rw [plan_of_advancesFrom h hplace]
    unfold advance
    rw [h.2.2]
    unfold checkCache uidOf
    rw [huid]
    exact ⟨_, rfl, fun _ => rfl⟩
  refine ⟨next, hplan, fun cache => ?_⟩
  obtain ⟨next', hsearch, hheld, hclaim⟩ :=
    @searchPool_call settings r looking occasion.now key uid cache
  refine ⟨next', (hnext cache).trans hsearch, fun operations op hfound => ?_, hclaim⟩
  obtain ⟨s, next'', hrecord, hdone, hphase, hoperation, htimely⟩ := @recordClaim_call settings r
    (looking.cacheFound (Cache.nameForKey key) occasion.now) (Cache.nameForKey key) op.name
    occasion.now h.2.2
  refine ⟨s, next'', (hheld operations op hfound).trans hrecord, hdone, hphase, hoperation,
    fun hknown hnow => htimely ?_ hnow⟩
  exact hknown.withCondition hnow _ _ _ _

/-! ### Following -/

/-- A requirement looks at its operation, and is ready once that one is. -/
theorem plan_of_operating (h : AdvancesFrom r .operating) (hplace : r.metadata.namespaceName.isSome)
    {uid operation : String} (huid : r.metadata.uid = some uid)
    (hbound : r.known.operationName = some operation) {op : Operation}
    (howner : (op.metadata.findOwner? uid).isSome) (hready : op.isReady = true) :
    ∃ next, plan settings occasion r = .call r.namespaceName (.getOperation operation) next ∧
      ∃ s next', next (.ok (some op)) = .call r.namespaceName (.patchStatus r.name s) next' ∧
        s.phase = .ready ∧ s.operationName = some operation ∧
        (r.known.Timely → occasion.now.Valid → s.Timely) := by
  let status : RequirementStatus :=
    { r.known.operationReady operation occasion.now with phase := .ready }
  have hchanges : r.known.phase ≠ status.phase := by
    rw [h.2.2]
    exact RequirementPhase.noConfusion
  have hplan : plan settings occasion r = follow settings r r.known operation occasion.now := by
    rw [plan_of_advancesFrom h hplace]
    unfold advance
    rw [h.2.2, hbound]
  rw [hplan]
  unfold follow uidOf
  rw [huid]
  refine ⟨_, rfl, ?_⟩
  have howned : ¬ (op.metadata.findOwner? uid).isNone = true := by
    simpa [Option.isSome_iff_ne_none] using howner
  show ∃ s next', ite _ _ (ite _ _ _) = _ ∧ _
  rw [if_neg howned, if_pos hready]
  unfold showReady
  rw [commit_of_phase hchanges]
  exact ⟨_, _, rfl, rfl, hbound, fun hknown hnow => hknown.withCondition hnow _ _ _ _⟩

/-! ### Seeing to a deletion -/

/-- A deleted requirement says so first. -/
theorem plan_of_deletion (hdeleting : r.isDeleting = true)
    (hplace : r.metadata.namespaceName.isSome) (hfinalizer : r.hasFinalizer = true)
    (hphase : r.known.phase = .cacheChecking) :
    ∃ s next, plan settings occasion r = .call r.namespaceName (.patchStatus r.name s) next ∧
      s.phase = .deleting ∧ s.key = r.known.key ∧ s.conditions = r.known.conditions := by
  rw [plan_of_isDeleting hdeleting hplace]
  unfold delete
  rw [if_neg (by simp [hfinalizer]), if_neg (by simp [hphase]), commit_of_phase (by simp [hphase])]
  exact ⟨_, _, rfl, rfl, rfl, rfl⟩

/-- Without a key nothing is handed back before the finalizer goes. -/
theorem plan_of_release (hdeleting : r.isDeleting = true)
    (hplace : r.metadata.namespaceName.isSome) (hfinalizer : r.hasFinalizer = true)
    (hphase : r.known.phase = .deleting) (hkey : r.known.key = none) :
    ∃ s next, plan settings occasion r = .call r.namespaceName (.patchStatus r.name s) next ∧
      s.conditions = r.known.conditions ∧
      ∃ next', next (.ok ()) =
        .call r.namespaceName (.removeFinalizer r.name requirementFinalizer) next' := by
  have hnone : releaseClaims r r.known = pure () := by
    unfold releaseClaims
    rw [hkey]
  rw [plan_of_isDeleting hdeleting hplace]
  unfold delete
  rw [if_neg (by simp [hfinalizer]), if_pos (.inl hphase), commit_of_phase (by simp [hphase]),
    hnone]
  exact ⟨_, _, rfl, rfl, _, rfl⟩

end WarmPool.Reconcile
