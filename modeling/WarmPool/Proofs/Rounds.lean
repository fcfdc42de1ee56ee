import WarmPool.Proofs.Calm
import WarmPool.Proofs.Course
import WarmPool.Proofs.Report
import WarmPool.Proofs.System

/-!
# What a calm reconcile comes to

The reconcile of a stored requirement when nothing goes wrong, by where the requirement stands: its
calls, its result and what is stored afterwards. A status is written at the end, and by
`Reconcile.commitCalls` it is not written again where it is stored already.
-/

namespace WarmPool

/-! ### The cluster -/

namespace Cluster

variable {c : Cluster} {namespaceName name : String}

/-- Every operation has a place of its own and a version. -/
structure Tidy (c : Cluster) : Prop where
  placed : ∀ op ∈ c.operations, ∃ namespaceName name, op.metadata.isAt namespaceName name = true
  apart : (c.operations.map fun op => op.metadata.place).Nodup
  versioned : ∀ op ∈ c.operations, op.metadata.resourceVersion.isSome

theorem Tidy.congr {c' : Cluster} (h : c.Tidy) (hsame : c'.operations = c.operations) :
    c'.Tidy := by
  obtain ⟨hplaced, hapart, hversioned⟩ := h
  rw [← hsame] at hplaced hapart hversioned
  exact ⟨hplaced, hapart, hversioned⟩

/-- An operation of the namespace is found by its name. -/
theorem Tidy.operation?_of_mem (h : c.Tidy) {op : Operation} (hop : op ∈ c.operations)
    (hnamespace : op.metadata.namespaceName = some namespaceName) :
    c.operation? namespaceName op.name = some op := by
  obtain ⟨namespaceName', name, hplace⟩ := h.placed op hop
  have hname : op.name = name := Metadata.anyName_of_isAt hplace
  have hat : op.metadata.isAt namespaceName op.name = true := by
    rw [hname]
    exact Metadata.isAt_iff.2 (Prod.ext hnamespace (Metadata.name_of_isAt hplace))
  cases hfound : c.operation? namespaceName op.name with
  | none => exact absurd hat (by simp [operation?_eq_none.1 hfound op hop])
  | some found =>
    obtain ⟨hfoundMem, hfoundAt⟩ := mem_of_operation? hfound
    rw [List.inj_on_of_nodup_map h.apart hfoundMem hop
      ((Metadata.isAt_iff.1 hfoundAt).trans (Metadata.isAt_iff.1 hat).symm)]

/-- An operation that is listed is found by its name. -/
theorem Tidy.operation?_of_mem_list (h : c.Tidy) {key : String} {op : Operation}
    (hop : op ∈ c.listOperations namespaceName key) :
    c.operation? namespaceName op.name = some op := by
  obtain ⟨hmem, hlisted⟩ := List.mem_filter.1 hop
  exact h.operation?_of_mem hmem (of_decide_eq_true (Bool.and_eq_true_iff.1 hlisted).1)

theorem serve_getOperation {found : Option Operation}
    (h : c.operation? namespaceName name = found) :
    serve namespaceName c c (.getOperation name) = (.ok found, c) := by
  subst h
  rfl

theorem serve_getCache {found : Option Cache} (h : c.cache? namespaceName name = found) :
    serve namespaceName c c (.getCache name) = (.ok found, c) := by
  subst h
  rfl

/-- A cache is made where there is none of its name, and found there afterwards. -/
theorem createCache_made {x : Cache} (hat : x.metadata.isAt namespaceName name = true)
    (hnone : c.cache? namespaceName name = none) :
    (c.createCache namespaceName x).1 = true ∧
      (c.createCache namespaceName x).2.requirements = c.requirements ∧
      (c.createCache namespaceName x).2.operations = c.operations ∧
      ∃ y, (c.createCache namespaceName x).2.cache? namespaceName name = some y ∧
        y.status = x.status := by
  have hname : x.name = name := Metadata.anyName_of_isAt hat
  let y : Cache := { x with
    metadata :=
      { x.metadata with
        uid := some (madeUid name)
        resourceVersion := some c.nextVersion.1 } }
  have hy : [y].find? (fun y => y.metadata.isAt namespaceName name) = some y :=
    List.find?_cons_of_pos hat
  unfold createCache
  rw [hname, if_neg (by simp [hnone])]
  refine ⟨rfl, rfl, rfl, y, (List.find?_append ..).trans ?_, rfl⟩
  rw [show c.nextVersion.2.caches.find? _ = none from hnone, Option.none_or]
  exact hy

/-- An operation is made where there is room for its name, and found there afterwards. -/
theorem createOperation_made {op : Operation}
    (hplace : op.metadata.namespaceName = some namespaceName)
    (hroom : c.HasRoom namespaceName (.createOperation op)) :
    (c.createOperation op).2.requirements = c.requirements ∧
      (c.createOperation op).2.operation? namespaceName (c.createOperation op).1.name =
        some (c.createOperation op).1 ∧
      (c.createOperation op).1.metadata.owners = op.metadata.owners := by
  have hat : (c.createOperation op).1.metadata.isAt namespaceName (c.drawnName op.name) = true :=
    Metadata.isAt_iff.2 (Prod.ext hplace rfl)
  have hname : (c.createOperation op).1.name = c.drawnName op.name :=
    Metadata.anyName_of_isAt hat
  refine ⟨rfl, ?_, rfl⟩
  have hnone : c.operations.find? (fun x => x.metadata.isAt namespaceName (c.drawnName op.name)) =
      none := hroom op rfl
  rw [hname]
  show (c.operations ++ [(c.createOperation op).1]).find? _ = _
  rw [List.find?_append, hnone, Option.none_or]
  exact List.find?_cons_of_pos hat

theorem serve_listOperations (c : Cluster) (namespaceName key : String) :
    serve namespaceName c c (.listOperations key) =
      (.ok (c.listOperations namespaceName key), c) := rfl

end Cluster

namespace Reconcile

variable {settings : Settings} {occasion : Occasion} {namespaceName uid operation : String}
  {c : Cluster} {r : Requirement} {op : Operation}

/-! ### Following -/

theorem plan_of_bound (hfrom : AdvancesFrom r .operating ∨ AdvancesFrom r .ready)
    (hplace : r.metadata.namespaceName.isSome) (hbound : r.known.operationName = some operation) :
    plan settings occasion r = follow settings r r.known operation occasion.now := by
  rcases hfrom with hfrom | hfrom
  all_goals
    rw [plan_of_advancesFrom hfrom hplace]
    unfold advance
    rw [hfrom.2.2, hbound]

theorem lose_performs (h : c.Stores namespaceName r) (hnow : occasion.now.Valid)
    (message : String) :
    ∃ c' r', (lose r r.known message occasion.now).Performs namespaceName c (.requeue .zero)
        (commitCalls r (loss r message occasion.now)) c' ∧
      c.Reported namespaceName r (loss r message occasion.now) c' r' := by
  have hs : (loss r message occasion.now).Timely :=
    h.requirement_timely.2.withCondition hnow _ _ _ _
  exact commitThen_performs h hs (.refl r) rfl .zero

/-- An operation that is gone, or does not refer to the requirement any more, is let go. -/
theorem plan_performs_lost (h : c.Stores namespaceName r) (hnow : occasion.now.Valid)
    (hfrom : AdvancesFrom r .operating ∨ AdvancesFrom r .ready) (huid : r.metadata.uid = some uid)
    (hbound : r.known.operationName = some operation)
    (hlost : ∀ op, c.operation? namespaceName operation = some op →
      op.metadata.findOwner? uid = none) :
    ∃ message c' r', (plan settings occasion r).Performs namespaceName c (.requeue .zero)
        (.getOperation operation :: commitCalls r (loss r message occasion.now)) c' ∧
      c.Reported namespaceName r (loss r message occasion.now) c' r' := by
  obtain rfl := h.namespaceName_eq
  rw [plan_of_bound hfrom h.isSome_namespaceName hbound]
  unfold follow
  cases hop : c.operation? r.namespaceName operation with
  | none =>
    obtain ⟨c', r', hperforms, hreported⟩ := lose_performs h hnow (operation ++ " was deleted")
    exact ⟨_, c', r', .orFail_bind huid (.ask_bind (Cluster.serve_getOperation hop) hperforms),
      hreported⟩
  | some op =>
    obtain ⟨c', r', hperforms, hreported⟩ := lose_performs h hnow
      (operation ++ " no longer references this requirement")
    refine ⟨_, c', r', .orFail_bind huid (.ask_bind (Cluster.serve_getOperation hop) ?_),
      hreported⟩
    show (ite _ _ _ : Plan Action).Performs _ _ _ _ _
    rwa [if_pos (Option.isNone_iff_eq_none.2 (hlost op hop))]

/-- A requirement without an operation to be ready by starts over. -/
theorem plan_performs_unserved (h : c.Stores namespaceName r) (hnow : occasion.now.Valid)
    (hfrom : AdvancesFrom r .ready) (hunbound : r.known.operationName = none) :
    ∃ message c' r', (plan settings occasion r).Performs namespaceName c (.requeue .zero)
        (commitCalls r (loss r message occasion.now)) c' ∧
      c.Reported namespaceName r (loss r message occasion.now) c' r' := by
  rw [plan_of_advancesFrom hfrom h.isSome_namespaceName]
  unfold advance
  rw [hfrom.2.2, hunbound]
  exact ⟨_, lose_performs h hnow "no operation bound"⟩

/-- A requirement whose operation is ready shows it. -/
theorem plan_performs_ready (h : c.Stores namespaceName r) (hnow : occasion.now.Valid)
    (hfrom : AdvancesFrom r .operating ∨ AdvancesFrom r .ready) (huid : r.metadata.uid = some uid)
    (hbound : r.known.operationName = some operation)
    (hop : c.operation? namespaceName operation = some op)
    (howner : (op.metadata.findOwner? uid).isSome) (hready : op.isReady = true) :
    ∃ c' r', (plan settings occasion r).Performs namespaceName c (.requeue settings.readyResync)
        (.getOperation operation :: commitCalls r (readiness r operation occasion.now)) c' ∧
      c.Reported namespaceName r (readiness r operation occasion.now) c' r' := by
  obtain rfl := h.namespaceName_eq
  have hs : (readiness r operation occasion.now).Timely :=
    h.requirement_timely.2.withCondition hnow _ _ _ _
  obtain ⟨written, c', r', hcommit, hreported⟩ := commit_performs h hs (.refl r) rfl
  rw [plan_of_bound hfrom h.isSome_namespaceName hbound]
  unfold follow
  refine ⟨c', r', .orFail_bind huid (.ask_bind (Cluster.serve_getOperation hop) ?_), hreported⟩
  show (ite _ _ (ite _ _ _) : Plan Action).Performs _ _ _ _ _
  rw [if_neg (by simpa [Option.isSome_iff_ne_none] using howner), if_pos hready,
    ← List.append_nil (commitCalls r _)]
  refine hcommit.bind ?_
  by_cases hphase : r.known.phase = .ready
  · rw [if_pos hphase]
    exact .done
  · rw [if_neg hphase]
    exact .tell_bind .done

/-- A requirement whose operation is not ready shows that. -/
theorem plan_performs_notReady (h : c.Stores namespaceName r) (hnow : occasion.now.Valid)
    (hfrom : AdvancesFrom r .operating ∨ AdvancesFrom r .ready) (huid : r.metadata.uid = some uid)
    (hbound : r.known.operationName = some operation)
    (hop : c.operation? namespaceName operation = some op)
    (howner : (op.metadata.findOwner? uid).isSome) (hready : op.isReady = false) :
    ∃ c' r', (plan settings occasion r).Performs namespaceName c (.requeue settings.readinessPoll)
        (.getOperation operation ::
          commitCalls r (unreadiness r operation op.phase occasion.now)) c' ∧
      c.Reported namespaceName r (unreadiness r operation op.phase occasion.now) c' r' := by
  obtain rfl := h.namespaceName_eq
  have hs : (unreadiness r operation op.phase occasion.now).Timely :=
    h.requirement_timely.2.withCondition hnow _ _ _ _
  obtain ⟨c', r', hcommit, hreported⟩ :=
    commitThen_performs h hs (.refl r) rfl settings.readinessPoll
  rw [plan_of_bound hfrom h.isSome_namespaceName hbound]
  unfold follow
  refine ⟨c', r', .orFail_bind huid (.ask_bind (Cluster.serve_getOperation hop) ?_), hreported⟩
  show (ite _ _ (ite _ _ _) : Plan Action).Performs _ _ _ _ _
  rwa [if_neg (by simpa [Option.isSome_iff_ne_none] using howner), if_neg (by simp [hready])]

/-! ### Taking in -/

theorem intake_timely {now : Timestamp} (h : r.known.Timely) (hnow : now.Valid) :
    (intake r now).Timely := by
  have htaken : (r.known.taken r.spec.template.key now).Timely := h.withCondition hnow _ _ _ _
  unfold intake
  split
  · exact htaken.withCondition hnow _ _ _ _
  · exact htaken

/-- A new requirement is taken in, and is to look at once for its pool or its own operation. -/
theorem plan_performs_initial (h : c.Stores namespaceName r) (hnow : occasion.now.Valid)
    (hfrom : AdvancesFrom r .initial) :
    ∃ calls c' r', (plan settings occasion r).Performs namespaceName c (.requeue .zero) calls c' ∧
      c.Reported namespaceName r (intake r occasion.now) c' r' := by
  obtain rfl := h.namespaceName_eq
  have hplan : plan settings occasion r =
      if r.hasFinalizer then commitThen r (intake r occasion.now) .zero
      else Plan.ask r.namespaceName (.addFinalizer r.name requirementFinalizer) >>= fun _ =>
        commitThen r (intake r occasion.now) .zero := by
    rw [plan_of_advancesFrom hfrom h.isSome_namespaceName]
    unfold advance
    rw [hfrom.2.2]
    rfl
  have hs := intake_timely h.requirement_timely.2 hnow
  rw [hplan]
  by_cases hfinalizer : r.hasFinalizer = true
  · obtain ⟨c', r', hperforms, hreported⟩ := commitThen_performs h hs (.refl r) rfl .zero
    rw [if_pos hfinalizer]
    exact ⟨_, c', r', hperforms, hreported⟩
  · -- The status is written to the requirement as it is with its finalizer.
    obtain ⟨hok, hcaches, hoperations⟩ := Cluster.addFinalizer_ok h.stored requirementFinalizer
    let taking := (c.addFinalizer r.namespaceName r.name requirementFinalizer).2
    have hserve : Cluster.serve r.namespaceName c c (.addFinalizer r.name requirementFinalizer) =
        (.ok (), taking) := by
      rw [← hok]
      rfl
    have hnames : taking.drawnName = c.drawnName := by
      unfold taking
      rw [Cluster.addFinalizer_eq]
      split
      · rfl
      · rfl
    obtain ⟨c', r', hperforms, hreported⟩ := commitThen_performs
      (h.addFinalizer requirementFinalizer) hs (r.alike_takeFinalizer requirementFinalizer)
      (r.touches_takeFinalizer requirementFinalizer).status .zero
    rw [if_neg hfinalizer]
    exact ⟨_, c', r', .ask_bind hserve hperforms, hreported.stores, hreported.alike,
      hreported.status, hreported.operations.trans hoperations, hreported.caches.trans hcaches,
      hreported.drawnName.trans hnames⟩

/-- Without an operation, a requirement that operates looks for a pool or for one of its own. -/
theorem advance_unbound {status : RequirementStatus} (hphase : status.phase = .operating)
    (hunbound : status.operationName = none) :
    advance settings occasion r status =
      if r.spec.enableCache then commitThen r { status with phase := .cacheChecking } .zero
      else ensureOwned settings r status occasion := by
  obtain ⟨phase, key, operationName, conditions, generation⟩ := status
  subst hphase
  subst hunbound
  rfl

/-- A requirement with caching and without an operation is to look for its pool at once. -/
theorem plan_performs_unbound (h : c.Stores namespaceName r)
    (hfrom : AdvancesFrom r .operating) (hunbound : r.known.operationName = none)
    (hcache : r.spec.enableCache = true) :
    ∃ c' r', (plan settings occasion r).Performs namespaceName c (.requeue .zero)
        (commitCalls r { r.known with phase := .cacheChecking }) c' ∧
      c.Reported namespaceName r { r.known with phase := .cacheChecking } c' r' := by
  have hs : RequirementStatus.Timely { r.known with phase := .cacheChecking } :=
    h.requirement_timely.2
  rw [plan_of_advancesFrom hfrom h.isSome_namespaceName, advance_unbound hfrom.2.2 hunbound,
    if_pos hcache]
  exact commitThen_performs h hs (.refl r) rfl .zero

/-! ### Searching a pool -/

theorem searching_timely {now : Timestamp} (h : r.known.Timely) (hnow : now.Valid) :
    (searching r now).Timely := by
  have hkey : RequirementStatus.Timely { r.known with key := some (soughtKey r r.known) } := h
  exact hkey.withCondition hnow _ _ _ _

/-- A requirement that searches a pool looks for its cache first. -/
theorem plan_performs_searching (h : c.Stores namespaceName r)
    (hfrom : AdvancesFrom r .cacheChecking) (huid : r.metadata.uid = some uid) {action : Action}
    {calls : List Call} {c' : Cluster} {found : Option Cache}
    (hfound : c.cache? namespaceName (Cache.nameForKey (soughtKey r r.known)) = found)
    (hperforms : Plan.Performs namespaceName
      (match found with
        | some cache =>
          searchPool settings r { r.known with key := some (soughtKey r r.known) }
            (soughtKey r r.known) uid cache occasion.now
        | none =>
          makeCache settings r { r.known with key := some (soughtKey r r.known) }
            (soughtKey r r.known) occasion.now) c action calls c') :
    (plan settings occasion r).Performs namespaceName c action
      (.getCache (Cache.nameForKey (soughtKey r r.known)) :: calls) c' := by
  obtain rfl := h.namespaceName_eq
  rw [plan_of_advancesFrom hfrom h.isSome_namespaceName]
  unfold advance
  rw [hfrom.2.2]
  cases found with
  | some cache => exact .orFail_bind huid (.ask_bind (Cluster.serve_getCache hfound) hperforms)
  | none => exact .orFail_bind huid (.ask_bind (Cluster.serve_getCache hfound) hperforms)

theorem binding_timely (operation : String) {now : Timestamp} (h : r.known.Timely)
    (hnow : now.Valid) : (binding r operation now).Timely :=
  (searching_timely h hnow).withCondition hnow _ _ _ _

/-- A requirement that holds an operation of its pool already binds it. -/
theorem plan_performs_adopting (h : c.Stores namespaceName r) (hnow : occasion.now.Valid)
    (hfrom : AdvancesFrom r .cacheChecking) (huid : r.metadata.uid = some uid) {cache : Cache}
    (hcache : c.cache? namespaceName (Cache.nameForKey (soughtKey r r.known)) = some cache)
    (hheld : Pool.claimedBy? uid (c.listOperations namespaceName (soughtKey r r.known)) =
      some op) :
    ∃ c' r', (plan settings occasion r).Performs namespaceName c (.requeue settings.readinessPoll)
        (.getCache (Cache.nameForKey (soughtKey r r.known)) ::
          .listOperations (soughtKey r r.known) ::
          commitCalls r (binding r op.name occasion.now)) c' ∧
      c.Reported namespaceName r (binding r op.name occasion.now) c' r' := by
  obtain rfl := h.namespaceName_eq
  obtain ⟨c', r', hperforms, hreported⟩ := commitThen_performs h
    (binding_timely op.name h.requirement_timely.2 hnow) (.refl r) rfl
    settings.readinessPoll
  refine ⟨c', r', plan_performs_searching h hfrom huid hcache ?_, hreported⟩
  unfold searchPool
  refine .ask_bind (Cluster.serve_listOperations c r.namespaceName _) ?_
  rw [hheld]
  exact hperforms

/-- A requirement that holds nothing claims what is selected from the pool, and binds it. -/
theorem plan_performs_claiming (h : c.Stores namespaceName r) (hnow : occasion.now.Valid)
    (hfrom : AdvancesFrom r .cacheChecking) (huid : r.metadata.uid = some uid) {cache : Cache}
    (hcache : c.cache? namespaceName (Cache.nameForKey (soughtKey r r.known)) = some cache)
    (hunheld : Pool.claimedBy? uid (c.listOperations namespaceName (soughtKey r r.known)) = none)
    (hselect : Pool.select? cache (c.listOperations namespaceName (soughtKey r r.known)) = some op)
    {version : String} (hversion : op.metadata.resourceVersion = some version)
    (hclaim : (c.patchOwners namespaceName op.name version
      (op.metadata.withOwner (holderReference r uid false))).1 = .ok ()) :
    ∃ c' r', (plan settings occasion r).Performs namespaceName c (.requeue settings.readinessPoll)
        (.getCache (Cache.nameForKey (soughtKey r r.known)) ::
          .listOperations (soughtKey r r.known) ::
          .patchOwners op.name version (op.metadata.withOwner (holderReference r uid false)) ::
          commitCalls r (binding r op.name occasion.now)) c' ∧
      (c.patchOwners namespaceName op.name version
        (op.metadata.withOwner (holderReference r uid false))).2.Reported namespaceName r
        (binding r op.name occasion.now) c' r' := by
  obtain rfl := h.namespaceName_eq
  let owners := op.metadata.withOwner (holderReference r uid false)
  let claimed := (c.patchOwners r.namespaceName op.name version owners).2
  have hserve : Cluster.serve r.namespaceName c c (.patchOwners op.name version owners) =
      (.ok (), claimed) := by
    rw [← hclaim]
    rfl
  have hstores : claimed.Stores r.namespaceName r :=
    h.congr
      (@Cluster.requirements_serve c c r.namespaceName (.patchOwners op.name version owners) rfl)
  obtain ⟨c', r', hperforms, hreported⟩ := commitThen_performs hstores
    (binding_timely op.name h.requirement_timely.2 hnow) (.refl r) rfl
    settings.readinessPoll
  refine ⟨c', r', plan_performs_searching h hfrom huid hcache ?_, hreported⟩
  unfold searchPool
  refine .ask_bind (Cluster.serve_listOperations c r.namespaceName _) ?_
  simp only [hunheld, hselect]
  unfold claim
  exact .orFail_bind hversion (.attempt_bind hserve (.count_bind (.tell_bind hperforms)))

/-- A requirement for which its pool has nothing waits. -/
theorem plan_performs_waiting (h : c.Stores namespaceName r) (hnow : occasion.now.Valid)
    (hfrom : AdvancesFrom r .cacheChecking) (huid : r.metadata.uid = some uid) {cache : Cache}
    (hcache : c.cache? namespaceName (Cache.nameForKey (soughtKey r r.known)) = some cache)
    (hunheld : Pool.claimedBy? uid (c.listOperations namespaceName (soughtKey r r.known)) = none)
    (hselect : Pool.select? cache (c.listOperations namespaceName (soughtKey r r.known)) = none) :
    ∃ c' r', (plan settings occasion r).Performs namespaceName c (.requeue settings.cachePoll)
        (.getCache (Cache.nameForKey (soughtKey r r.known)) ::
          .listOperations (soughtKey r r.known) :: commitCalls r (waiting r occasion.now)) c' ∧
      c.Reported namespaceName r (waiting r occasion.now) c' r' := by
  obtain rfl := h.namespaceName_eq
  have hs : (waiting r occasion.now).Timely :=
    (searching_timely h.requirement_timely.2 hnow).withCondition hnow _ _ _ _
  obtain ⟨c', r', hperforms, hreported⟩ :=
    commitThen_performs h hs (.refl r) rfl settings.cachePoll
  refine ⟨c', r', plan_performs_searching h hfrom huid hcache ?_, hreported⟩
  unfold searchPool
  refine .ask_bind (Cluster.serve_listOperations c r.namespaceName _) ?_
  simp only [hunheld, hselect]
  exact .count_bind hperforms

/-! ### Making a cache -/

/-- A requirement without a cache for its key makes one, whose pool is empty. -/
theorem plan_performs_making (h : c.Stores namespaceName r) (hnow : occasion.now.Valid)
    (hfrom : AdvancesFrom r .cacheChecking) (huid : r.metadata.uid = some uid)
    (hnone : c.cache? namespaceName (Cache.nameForKey (soughtKey r r.known)) = none) :
    ∃ calls, ∃ made : Cluster, ∃ c' r', (plan settings occasion r).Performs namespaceName c
        (.requeue settings.cachePoll) calls c' ∧
      made.Reported namespaceName r (emptiness r occasion.now) c' r' ∧
      made.operations = c.operations ∧
      ∃ cache : Cache,
        made.cache? namespaceName (Cache.nameForKey (soughtKey r r.known)) = some cache ∧
        cache.pool = [] := by
  obtain rfl := h.namespaceName_eq
  let x := newCache settings r (soughtKey r r.known)
  let made := (c.createCache r.namespaceName x).2
  have hplace : r.metadata.namespaceName = some r.namespaceName :=
    Metadata.namespaceName_of_isAt h.isAt
  have hat : x.metadata.isAt r.namespaceName (Cache.nameForKey (soughtKey r r.known)) = true :=
    Metadata.isAt_iff.2 (Prod.ext hplace rfl)
  obtain ⟨hok, hrequirements, hoperations, cache, hcache, hempty⟩ :=
    Cluster.createCache_made hat hnone
  have hserve : Cluster.serve r.namespaceName c c (.createCache x) = (.ok true, made) := by
    show (Except.ok (c.createCache r.namespaceName x).1, made) = _
    rw [hok]
  have hs : (emptiness r occasion.now).Timely :=
    (searching_timely h.requirement_timely.2 hnow).withCondition hnow _ _ _ _
  obtain ⟨c', r', hperforms, hreported⟩ :=
    commitThen_performs (h.congr hrequirements) hs (.refl r) rfl settings.cachePoll
  have hmakes : (makeCache settings r { r.known with key := some (soughtKey r r.known) }
      (soughtKey r r.known) occasion.now).Performs r.namespaceName c (.requeue settings.cachePoll)
      (.createCache x :: commitCalls r (emptiness r occasion.now)) c' :=
    .ask_bind hserve (.tell_bind (.count_bind hperforms))
  refine ⟨_, made, c', r', plan_performs_searching h hfrom huid hnone hmakes, hreported,
    hoperations, cache, hcache, ?_⟩
  unfold Cache.pool
  rw [hempty]
  rfl

/-! ### An operation of one's own -/

theorem isSome_findOwner?_of_mem {m : Metadata} {o : OwnerReference} (h : o ∈ m.owners)
    (huid : o.uid = uid) : (m.findOwner? uid).isSome := by
  unfold Metadata.findOwner?
  rw [List.find?_isSome]
  exact ⟨o, h, by simpa using huid⟩

theorem isSome_findOwner?_of_isControlledBy (h : isControlledBy uid op = true) :
    (op.metadata.findOwner? uid).isSome := by
  unfold isControlledBy at h
  cases howner : op.metadata.controllerOwner? with
  | none =>
    rw [howner] at h
    cases h
  | some o =>
    rw [howner] at h
    exact isSome_findOwner?_of_mem (List.mem_of_find?_eq_some howner) (by simpa using h)

/-- Whether found or made, the operation of one's own is stored and refers to the requirement. -/
theorem ownOperation_performs (hplace : r.metadata.namespaceName = some namespaceName)
    (htidy : c.Tidy) {key suffix : String}
    (hroom : c.HasRoom namespaceName (.createOperation (newOperation r key uid suffix))) :
    ∃ operation calls, ∃ c' : Cluster, (ownOperation r key uid suffix).Performs namespaceName c
        operation calls c' ∧
      c'.requirements = c.requirements ∧ ∃ op, c'.operation? namespaceName operation = some op ∧
        (op.metadata.findOwner? uid).isSome := by
  obtain rfl : r.namespaceName = namespaceName := Requirement.namespaceName_of_some hplace
  unfold ownOperation
  cases hfound : (c.listOperations r.namespaceName key).find? (isControlledBy uid) with
  | some op =>
    have hmem := List.mem_of_find?_eq_some hfound
    refine ⟨op.name, [.listOperations key], c,
      .ask_bind (Cluster.serve_listOperations c r.namespaceName key) ?_, rfl, op,
      htidy.operation?_of_mem_list hmem,
      isSome_findOwner?_of_isControlledBy (List.find?_some hfound)⟩
    rw [hfound]
    exact .done
  | none =>
    let op := newOperation r key uid suffix
    let made := c.createOperation op
    have hserve : Cluster.serve r.namespaceName c c (.createOperation op) = (.ok made.1, made.2) :=
      rfl
    obtain ⟨hrequirements, hstored, howners⟩ := Cluster.createOperation_made hplace hroom
    have howner : holderReference r uid true ∈ made.1.metadata.owners := by
      rw [howners]
      exact List.mem_singleton_self _
    refine ⟨made.1.name, [.listOperations key, .createOperation op], made.2,
      .ask_bind (Cluster.serve_listOperations c r.namespaceName key) ?_, hrequirements, made.1,
      hstored, isSome_findOwner?_of_mem howner rfl⟩
    rw [hfound]
    exact .ask_bind hserve (.tell_bind .done)

/-- A requirement without caching binds an operation of its own. -/
theorem plan_performs_owning (h : c.Stores namespaceName r) (hnow : occasion.now.Valid)
    (hfrom : AdvancesFrom r .operating) (huid : r.metadata.uid = some uid)
    (hunbound : r.known.operationName = none) (hplain : r.spec.enableCache = false)
    (htidy : c.Tidy)
    (hroom : c.HasRoom namespaceName
      (.createOperation (newOperation r r.spec.template.key uid occasion.suffixText))) :
    ∃ operation calls, ∃ made : Cluster, ∃ c' r',
      (plan settings occasion r).Performs namespaceName c (.requeue settings.readinessPoll) calls
        c' ∧
      made.Reported namespaceName r (ownership r operation occasion.now) c' r' ∧
      ∃ op, made.operation? namespaceName operation = some op ∧
        (op.metadata.findOwner? uid).isSome := by
  obtain rfl := h.namespaceName_eq
  obtain ⟨operation, calls, made, hown, hrequirements, hserves⟩ :=
    ownOperation_performs (Metadata.namespaceName_of_isAt h.isAt) htidy hroom
  have hs : (ownership r operation occasion.now).Timely :=
    h.requirement_timely.2.withCondition hnow _ _ _ _
  obtain ⟨c', r', hperforms, hreported⟩ :=
    commitThen_performs (h.congr hrequirements) hs (.refl r) rfl settings.readinessPoll
  refine ⟨operation, calls ++ commitCalls r (ownership r operation occasion.now), made, c', r', ?_,
    hreported, hserves⟩
  rw [plan_of_advancesFrom hfrom h.isSome_namespaceName, advance_unbound hfrom.2.2 hunbound,
    if_neg (by simp [hplain])]
  exact .orFail_bind huid (hown.bind (.count_bind hperforms))

/-! ### A wrong specification -/

/-- A requirement with a wrong specification reports it and waits. -/
theorem plan_performs_invalid (h : c.Stores namespaceName r) (hnow : occasion.now.Valid)
    (hkept : r.isDeleting = false) {e : Error} (hspec : r.spec.validate = .error e) :
    ∃ c' r', (plan settings occasion r).Performs namespaceName c .awaitChange
        (commitCalls r (refused r e occasion.now)) c' ∧
      c.Reported namespaceName r (refused r e occasion.now) c' r' := by
  have hs : (refused r e occasion.now).Timely :=
    h.requirement_timely.2.withCondition hnow _ _ _ _
  obtain ⟨written, c', r', hcommit, hreported⟩ := commit_performs h hs (.refl r) rfl
  refine ⟨c', r', ?_, hreported⟩
  rw [plan_of_invalid hkept hspec h.isSome_namespaceName, ← List.append_nil (commitCalls r _)]
  refine hcommit.bind ?_
  cases written with
  | false => exact .done
  | true => exact .tell_bind .done

end Reconcile

end WarmPool
