import WarmPool.Proofs.Plan
import WarmPool.Proofs.StatusWrite
import WarmPool.Reconcile.Dispatch

/-!
# The moves of a reconcile

Which calls a reconcile makes, and after which answers. `Move` has one case for each kind of call,
with the answers that led to it, and `plan_obeys` shows that a reconcile makes no other. What is
known of a reconcile under way, whatever happens around it, is read off its moves.
-/

namespace WarmPool

/-! ### Conditions keep valid instants -/

theorem Conditions.set_timely {conditions : List Condition} {c : Condition}
    (h : ∀ entry ∈ conditions, entry.lastTransitionTime.Valid) (hc : c.lastTransitionTime.Valid) :
    ∀ entry ∈ set conditions c, entry.lastTransitionTime.Valid := by
  induction conditions with
  | nil =>
    intro entry hentry
    rw [set, List.mem_singleton] at hentry
    rwa [hentry]
  | cons first rest ih =>
    have hfirst := h first (by simp)
    have hrest := fun entry hentry => h entry (List.mem_cons_of_mem _ hentry)
    intro entry hentry
    rw [set] at hentry
    split at hentry
    · rcases List.mem_cons.1 hentry with rfl | hentry
      · unfold update
        split
        · exact hfirst
        · exact hc
      · exact hrest entry hentry
    · rcases List.mem_cons.1 hentry with rfl | hentry
      · exact hfirst
      · exact ih hrest entry hentry

theorem RequirementStatus.Timely.withCondition {s : RequirementStatus} {now : Timestamp}
    (h : s.Timely) (hnow : now.Valid) (type : String) (status : ConditionStatus)
    (reason message : String) : (s.withCondition type status reason message now).Timely :=
  Conditions.set_timely h hnow

/-! ### What is selected from a pool -/

namespace Pool

theorem mem_of_least? {operations : List Operation} {op : Operation}
    (h : least? operations = some op) : op ∈ operations := by
  induction operations generalizing op with
  | nil => cases h
  | cons first rest ih =>
    rw [least?] at h
    cases hrest : least? rest with
    | none =>
      rw [hrest] at h
      cases h
      exact List.mem_cons_self
    | some other =>
      rw [hrest] at h
      simp only at h
      split at h
      · cases h
        exact List.mem_cons_of_mem _ (ih hrest)
      · cases h
        exact List.mem_cons_self

variable {cache : Cache} {operations : List Operation} {op : Operation}

theorem mem_candidates_of_select? (h : select? cache operations = some op) :
    op ∈ candidates cache operations := mem_of_least? h

theorem mem_of_select? (h : select? cache operations = some op) : op ∈ operations :=
  (List.mem_filter.1 (List.mem_filter.1 (mem_candidates_of_select? h)).1).1

theorem isAcquirable_of_select? (h : select? cache operations = some op) :
    isAcquirable cache op = true := (List.mem_filter.1 (mem_candidates_of_select? h)).2

end Pool

namespace Reconcile

/-! ### Where a reconcile stands -/

/-- The requirement is to be advanced from a phase: it is valid and not being deleted. -/
def AdvancesFrom (r : Requirement) (phase : RequirementPhase) : Prop :=
  r.isDeleting = false ∧ r.spec.validate = .ok () ∧ r.known.phase = phase

/-- The requirement is to be released: a reconcile has said before that it is being deleted. -/
def Releases (r : Requirement) : Prop :=
  r.isDeleting = true ∧ r.hasFinalizer = true ∧
    (r.known.phase = .deleting ∨ r.known.phase = .deleted)

theorem AdvancesFrom.not_releases {r : Requirement} {phase : RequirementPhase}
    (h : AdvancesFrom r phase) : ¬ Releases r := fun hreleases =>
  absurd hreleases.1 (by simp [h.1])

/-- The status has not been written. -/
def Unwritten (past : List Answered) : Prop :=
  ∀ a ∈ past, ∀ name status, a.call ≠ .patchStatus name status

/-- An operation seen was handed back. -/
def HandedBack (uid : String) (past : List Answered) (op : Operation) : Prop :=
  ∃ version, op.metadata.resourceVersion = some version ∧
    ⟨.patchOwners op.name version (op.metadata.withoutOwner uid), .ok ()⟩ ∈ past

/-- Every operation of the key that was seen held was handed back. -/
def Released (r : Requirement) (past : List Answered) : Prop :=
  ∀ key, r.known.key = some key → ∃ uid operations, r.metadata.uid = some uid ∧
    ⟨.listOperations key, .ok operations⟩ ∈ past ∧
    ∀ op ∈ operations, isHeldBy uid op = true → HandedBack uid past op

/-- The statuses that a reconcile writes, by where it stands: what becomes of phase and key. -/
inductive Writes (r : Requirement) (past : List Answered) (s : RequirementStatus) : Prop
  /-- It says that the requirement is being deleted, or released. -/
  | deletion (hdeleting : r.isDeleting = true)
      (hphase : s.phase = .deleting ∨ s.phase = .deleted) (hkey : s.key = r.known.key)
  /-- It reports a wrong specification. -/
  | invalid (hdeleting : r.isDeleting = false) (hspec : r.spec.validate ≠ .ok ())
      (hphase : s.phase = r.known.phase) (hkey : s.key = r.known.key)
  /-- It takes a new requirement in, which has our finalizer by then. -/
  | taken (h : AdvancesFrom r .initial)
      (hfinalizer : r.hasFinalizer = true ∨
        ⟨.addFinalizer r.name requirementFinalizer, .ok ()⟩ ∈ past)
      (hcache : r.spec.enableCache = true → s.phase = .cacheChecking ∧ s.key.isSome)
      (hplain : r.spec.enableCache = false → s.phase = .operating)
  /-- It has looked for an operation to claim. -/
  | searched (h : AdvancesFrom r .cacheChecking)
      (hphase : s.phase = .cacheChecking ∨ s.phase = .operating)
      (hkey : s.key = some (soughtKey r r.known))
  /-- It has looked at the bound operation, or for one of its own. -/
  | followed (h : AdvancesFrom r .operating ∨ AdvancesFrom r .ready)
      (hphase : s.phase = .operating ∨ s.phase = .ready ∨
        (s.phase = .cacheChecking ∧ r.spec.enableCache = true))
      (hkey : s.key = r.known.key)

/-- The calls of a reconcile, each after the answers, the latest first, that lead to it. -/
inductive Move (occasion : Occasion) (r : Requirement) : List Answered → Call → Prop
  | addFinalizer (h : AdvancesFrom r .initial) (hfinalizer : r.hasFinalizer = false) :
      Move occasion r [] (.addFinalizer r.name requirementFinalizer)
  | write {past : List Answered} {s : RequirementStatus} (h : Writes r past s)
      (hfirst : Unwritten past) (htimely : r.known.Timely → occasion.now.Valid → s.Timely) :
      Move occasion r past (.patchStatus r.name s)
  | getCache (h : AdvancesFrom r .cacheChecking) :
      Move occasion r [] (.getCache (Cache.nameForKey (soughtKey r r.known)))
  | createCache (h : AdvancesFrom r .cacheChecking) (cache : Cache) :
      Move occasion r [⟨.getCache (Cache.nameForKey (soughtKey r r.known)), .ok none⟩]
        (.createCache cache)
  | listPool (h : AdvancesFrom r .cacheChecking) (cache : Cache) :
      Move occasion r [⟨.getCache (Cache.nameForKey (soughtKey r r.known)), .ok (some cache)⟩]
        (.listOperations (soughtKey r r.known))
  | claim (h : AdvancesFrom r .cacheChecking) {uid version : String} {cache : Cache}
      {operations : List Operation} {op : Operation} (huid : r.metadata.uid = some uid)
      (hnone : Pool.claimedBy? uid operations = none)
      (hselect : Pool.select? cache operations = some op)
      (hversion : op.metadata.resourceVersion = some version) :
      Move occasion r
        [⟨.listOperations (soughtKey r r.known), .ok operations⟩,
          ⟨.getCache (Cache.nameForKey (soughtKey r r.known)), .ok (some cache)⟩]
        (.patchOwners op.name version (op.metadata.withOwner (holderReference r uid false)))
  | getOperation (h : AdvancesFrom r .operating ∨ AdvancesFrom r .ready) (name : String) :
      Move occasion r [] (.getOperation name)
  | listOwn (h : AdvancesFrom r .operating) :
      Move occasion r [] (.listOperations r.spec.template.key)
  | createOperation (h : AdvancesFrom r .operating) (hplace : r.metadata.namespaceName.isSome)
      {uid : String} (huid : r.metadata.uid = some uid) (operations : List Operation) :
      Move occasion r [⟨.listOperations r.spec.template.key, .ok operations⟩]
        (.createOperation (newOperation r r.spec.template.key uid occasion.suffixText))
  | listHeld (h : Releases r) {key : String} (hkey : r.known.key = some key) :
      Move occasion r [] (.listOperations key)
  | release (h : Releases r) {past : List Answered} {key uid version : String}
      {operations : List Operation} {op : Operation} (hkey : r.known.key = some key)
      (huid : r.metadata.uid = some uid)
      (hlist : ⟨.listOperations key, .ok operations⟩ ∈ past) (hop : op ∈ operations)
      (hversion : op.metadata.resourceVersion = some version) :
      Move occasion r past (.patchOwners op.name version (op.metadata.withoutOwner uid))
  | removeFinalizer (h : Releases r) {past : List Answered} (hreleased : Released r past) :
      Move occasion r past (.removeFinalizer r.name requirementFinalizer)

variable {settings : Settings} {occasion : Occasion} {r : Requirement} {past : List Answered}

/-- A write of owners is a claim out of the pool that was listed, or hands back what was listed. -/
theorem Move.patchOwners_cases {name seen : String} {owners : List OwnerReference}
    (h : Move occasion r past (.patchOwners name seen owners)) :
    ∃ key uid operations op, (⟨.listOperations key, .ok operations⟩ : Answered) ∈ past ∧
      op ∈ operations ∧ op.name = name ∧ op.metadata.resourceVersion = some seen ∧
      r.metadata.uid = some uid ∧
      ((∃ cache, AdvancesFrom r .cacheChecking ∧ key = soughtKey r r.known ∧
          past = [⟨.listOperations key, .ok operations⟩,
            ⟨.getCache (Cache.nameForKey key), .ok (some cache)⟩] ∧
          Pool.claimedBy? uid operations = none ∧ Pool.select? cache operations = some op ∧
          owners = op.metadata.withOwner (holderReference r uid false)) ∨
        (Releases r ∧ owners = op.metadata.withoutOwner uid)) := by
  cases h with
  | claim h huid hnone hselect hversion =>
    exact ⟨_, _, _, _, by simp, Pool.mem_of_select? hselect, rfl, hversion, huid,
      .inl ⟨_, h, rfl, rfl, hnone, hselect, rfl⟩⟩
  | release h hkey huid hlist hop hversion =>
    exact ⟨_, _, _, _, hlist, hop, rfl, hversion, huid, .inr ⟨h, rfl⟩⟩

theorem Move.addFinalizer_cases {name finalizer : String}
    (h : Move occasion r past (.addFinalizer name finalizer)) :
    name = r.name ∧ finalizer = requirementFinalizer := by
  cases h with
  | addFinalizer _ _ => exact ⟨rfl, rfl⟩

/-- A status is written to the requirement once, with valid instants. -/
theorem Move.patchStatus_cases {name : String} {s : RequirementStatus}
    (h : Move occasion r past (.patchStatus name s)) :
    name = r.name ∧ Writes r past s ∧ Unwritten past ∧
      (r.known.Timely → occasion.now.Valid → s.Timely) := by
  cases h with
  | write h hfirst htimely => exact ⟨rfl, h, hfirst, htimely⟩

/-- The finalizer is taken away at the end of a release. -/
theorem Move.removeFinalizer_cases {name finalizer : String}
    (h : Move occasion r past (.removeFinalizer name finalizer)) :
    name = r.name ∧ Releases r ∧ Released r past := by
  cases h with
  | removeFinalizer h hreleased => exact ⟨rfl, h, hreleased⟩

/-- An operation is made in the namespace of the requirement, which controls it. -/
theorem Move.createOperation_cases {op : Operation}
    (h : Move occasion r past (.createOperation op)) :
    r.metadata.namespaceName.isSome ∧ ∃ uid, r.metadata.uid = some uid ∧
      op = newOperation r r.spec.template.key uid occasion.suffixText := by
  cases h with
  | createOperation _ hplace huid _ => exact ⟨hplace, _, huid, rfl⟩

/-- During a release, a status says just that, and keeps the key. -/
theorem Writes.of_releases {s : RequirementStatus} (h : Writes r past s)
    (hreleases : Releases r) :
    (s.phase = .deleting ∨ s.phase = .deleted) ∧ s.key = r.known.key := by
  cases h with
  | deletion _ hphase hkey => exact ⟨hphase, hkey⟩
  | invalid hkept _ _ _ => exact absurd hreleases.1 (by simp [hkept])
  | taken hadvances _ _ _ => exact absurd hreleases hadvances.not_releases
  | searched hadvances _ _ => exact absurd hreleases hadvances.not_releases
  | followed hadvances _ _ =>
    rcases hadvances with hadvances | hadvances
    · exact absurd hreleases hadvances.not_releases
    · exact absurd hreleases hadvances.not_releases

theorem unwritten_nil : Unwritten [] := fun _ ha => nomatch ha

/-- Another call than a status write leaves the status unwritten. -/
theorem Unwritten.cons (h : Unwritten past) {a : Answered}
    (ha : ∀ name status, a.call ≠ .patchStatus name status) : Unwritten (a :: past) := by
  intro b hb
  rcases List.mem_cons.1 hb with rfl | hb
  · exact ha
  · exact h b hb

/-- Operations are listed to search a pool, to find one's own or to release those held. -/
theorem Move.listOperations_cases {key : String}
    (h : Move occasion r past (.listOperations key)) :
    (AdvancesFrom r .cacheChecking ∧ key = soughtKey r r.known ∧ Unwritten past) ∨
      AdvancesFrom r .operating ∨ (Releases r ∧ past = [] ∧ r.known.key = some key) := by
  cases h with
  | listPool h cache =>
    exact .inl ⟨h, rfl, unwritten_nil.cons fun _ _ => Call.noConfusion⟩
  | listOwn h => exact .inr (.inl h)
  | listHeld h hkey => exact .inr (.inr ⟨h, rfl, hkey⟩)

/-! ### Writing the status -/

theorem commit_meets {s : RequirementStatus} {post : List Answered → Bool → Prop}
    (h : Writes r past (observed r s)) (hfirst : Unwritten past)
    (htimely : r.known.Timely → occasion.now.Valid → s.Timely)
    (hsame : post past false)
    (hwritten : post (⟨.patchStatus r.name (observed r s), .ok ()⟩ :: past) true) :
    (commit r s).Meets (Move occasion r) post past := by
  unfold commit
  split
  · exact hsame
  · exact Plan.Meets.ask_bind (.write h hfirst htimely) fun _ => hwritten

theorem commitThen_obeys {s : RequirementStatus} {after : Duration}
    (h : Writes r past (observed r s)) (hfirst : Unwritten past)
    (htimely : r.known.Timely → occasion.now.Valid → s.Timely) :
    (commitThen r s after).Obeys (Move occasion r) past := by
  have hcommit : (commit r s).Meets (Move occasion r) (fun _ _ => True) past :=
    commit_meets h hfirst htimely trivial trivial
  exact hcommit.bind fun _ _ _ => trivial

/-! ### Acquiring -/

theorem takeIn_obeys (h : AdvancesFrom r .initial) :
    (takeIn r r.known occasion.now).Obeys (Move occasion r) [] := by
  -- The same status is written with and without a finalizer to be added before.
  have hwrite (past : List Answered) (hfirst : Unwritten past)
      (hfinalizer : r.hasFinalizer = true ∨
        ⟨.addFinalizer r.name requirementFinalizer, .ok ()⟩ ∈ past) :
      (commitThen r
        (if r.spec.enableCache then
          { (r.known.taken r.spec.template.key occasion.now).cacheUnknown
              (Cache.nameForKey r.spec.template.key) occasion.now with
            key := some r.spec.template.key
            phase := .cacheChecking }
        else { r.known.taken r.spec.template.key occasion.now with phase := .operating })
        .zero).Obeys (Move occasion r) past := by
    refine commitThen_obeys (.taken h hfinalizer ?_ ?_) hfirst ?_
    · intro hcache
      rw [if_pos hcache]
      exact ⟨rfl, rfl⟩
    · intro hplain
      rw [if_neg (by simp [hplain])]
      rfl
    · intro htimely hnow
      have htaken : (r.known.taken r.spec.template.key occasion.now).Timely :=
        htimely.withCondition hnow _ _ _ _
      split
      · exact htaken.withCondition hnow _ _ _ _
      · exact htaken
  unfold takeIn
  by_cases hfinalizer : r.hasFinalizer = true
  · rw [if_pos hfinalizer]
    exact hwrite [] unwritten_nil (.inl hfinalizer)
  · rw [if_neg hfinalizer]
    refine Plan.Meets.ask_bind (.addFinalizer h (by simpa using hfinalizer)) fun _ => ?_
    exact hwrite _ (unwritten_nil.cons fun _ _ => Call.noConfusion) (.inr (by simp))

theorem makeCache_obeys {s : RequirementStatus} (h : AdvancesFrom r .cacheChecking)
    (hphase : s.phase = .cacheChecking) (hkey : s.key = some (soughtKey r r.known))
    (htimely : r.known.Timely → s.Timely) :
    (makeCache settings r s (soughtKey r r.known) occasion.now).Obeys (Move occasion r)
      [⟨.getCache (Cache.nameForKey (soughtKey r r.known)), .ok none⟩] := by
  have hwrite (created : Bool) : (commitThen r
      ((s.cacheFound (Cache.nameForKey (soughtKey r r.known)) occasion.now).poolEmpty
        (Cache.nameForKey (soughtKey r r.known)) occasion.now) settings.cachePoll).Obeys
      (Move occasion r)
      [⟨.createCache (newCache settings r (soughtKey r r.known)), .ok created⟩,
        ⟨.getCache (Cache.nameForKey (soughtKey r r.known)), .ok none⟩] := by
    refine commitThen_obeys (.searched h (.inl hphase) hkey) ?_ fun ht hnow =>
      ((htimely ht).withCondition hnow _ _ _ _).withCondition hnow _ _ _ _
    exact (unwritten_nil.cons fun _ _ => Call.noConfusion).cons fun _ _ => Call.noConfusion
  unfold makeCache
  refine Plan.Meets.ask_bind (.createCache h _) fun created => ?_
  cases created with
  | false => exact hwrite false
  | true => exact hwrite true

theorem recordClaim_obeys {s : RequirementStatus} {cache operation : String}
    (h : AdvancesFrom r .cacheChecking) (hkey : s.key = some (soughtKey r r.known))
    (hfirst : Unwritten past) (htimely : r.known.Timely → occasion.now.Valid → s.Timely) :
    (recordClaim settings r s cache operation occasion.now).Obeys (Move occasion r) past :=
  commitThen_obeys (.searched h (.inr rfl) hkey) hfirst fun ht hnow =>
    (htimely ht hnow).withCondition hnow _ _ _ _

theorem claim_obeys {s : RequirementStatus} {uid : String} {cache : Cache}
    {operations : List Operation} {op : Operation} (h : AdvancesFrom r .cacheChecking)
    (huid : r.metadata.uid = some uid) (hnone : Pool.claimedBy? uid operations = none)
    (hselect : Pool.select? cache operations = some op)
    (hkey : s.key = some (soughtKey r r.known))
    (htimely : r.known.Timely → occasion.now.Valid → s.Timely) :
    (claim settings r s (Cache.nameForKey (soughtKey r r.known)) uid op occasion.now).Obeys
      (Move occasion r)
      [⟨.listOperations (soughtKey r r.known), .ok operations⟩,
        ⟨.getCache (Cache.nameForKey (soughtKey r r.known)), .ok (some cache)⟩] := by
  unfold claim
  refine Plan.Meets.orFail_bind fun version hversion => ?_
  refine Plan.Meets.attempt_bind (.claim h huid hnone hselect hversion) fun reply => ?_
  cases reply with
  | ok a =>
    refine recordClaim_obeys h hkey ?_ htimely
    exact ((unwritten_nil.cons fun _ _ => Call.noConfusion).cons
      fun _ _ => Call.noConfusion).cons fun _ _ => Call.noConfusion
  | error e =>
    cases hconflict : e.isConflict with
    | false =>
      simp only [hconflict]
      exact trivial
    | true =>
      simp only [hconflict]
      exact trivial

theorem searchPool_obeys {s : RequirementStatus} {uid : String} {cache : Cache}
    (h : AdvancesFrom r .cacheChecking) (huid : r.metadata.uid = some uid)
    (hphase : s.phase = .cacheChecking) (hkey : s.key = some (soughtKey r r.known))
    (htimely : r.known.Timely → s.Timely) :
    (searchPool settings r s (soughtKey r r.known) uid cache occasion.now).Obeys
      (Move occasion r)
      [⟨.getCache (Cache.nameForKey (soughtKey r r.known)), .ok (some cache)⟩] := by
  have hfound : r.known.Timely → occasion.now.Valid →
      (s.cacheFound (Cache.nameForKey (soughtKey r r.known)) occasion.now).Timely :=
    fun ht hnow => (htimely ht).withCondition hnow _ _ _ _
  unfold searchPool
  refine Plan.Meets.ask_bind (.listPool h cache) fun operations => ?_
  have hfirst : Unwritten [⟨.listOperations (soughtKey r r.known), .ok operations⟩,
      ⟨.getCache (Cache.nameForKey (soughtKey r r.known)), .ok (some cache)⟩] :=
    (unwritten_nil.cons fun _ _ => Call.noConfusion).cons fun _ _ => Call.noConfusion
  cases hclaimed : Pool.claimedBy? uid operations with
  | some op => exact recordClaim_obeys h hkey hfirst hfound
  | none =>
    cases hselect : Pool.select? cache operations with
    | some op => exact claim_obeys h huid hclaimed hselect hkey hfound
    | none =>
      exact commitThen_obeys (.searched h (.inl hphase) hkey) hfirst fun ht hnow =>
        (hfound ht hnow).withCondition hnow _ _ _ _

theorem checkCache_obeys (h : AdvancesFrom r .cacheChecking) :
    (checkCache settings r r.known occasion.now).Obeys (Move occasion r) [] := by
  unfold checkCache
  refine Plan.Meets.orFail_bind fun uid huid => ?_
  refine Plan.Meets.ask_bind (.getCache h) fun found => ?_
  cases found with
  | some cache => exact searchPool_obeys h huid h.2.2 rfl id
  | none => exact makeCache_obeys h h.2.2 rfl id

theorem ensureOwned_obeys (h : AdvancesFrom r .operating)
    (hplace : r.metadata.namespaceName.isSome) :
    (ensureOwned settings r r.known occasion).Obeys (Move occasion r) [] := by
  -- Found or made, the operation is got without writing the status.
  have hown (uid : String) (huid : r.metadata.uid = some uid) :
      (ownOperation r r.spec.template.key uid occasion.suffixText).Meets (Move occasion r)
        (fun past _ => Unwritten past) [] := by
    unfold ownOperation
    refine Plan.Meets.ask_bind (.listOwn h) fun operations => ?_
    have hfirst : Unwritten [⟨.listOperations r.spec.template.key, .ok operations⟩] :=
      unwritten_nil.cons fun _ _ => Call.noConfusion
    split
    · exact hfirst
    · refine Plan.Meets.ask_bind (.createOperation h hplace huid operations) fun op => ?_
      exact hfirst.cons fun _ _ => Call.noConfusion
  unfold ensureOwned
  refine Plan.Meets.orFail_bind fun uid huid => ?_
  refine (hown uid huid).bind fun past operation hfirst => ?_
  exact commitThen_obeys (.followed (.inl h) (.inl rfl) rfl) hfirst fun ht hnow =>
    ht.withCondition hnow _ _ _ _

/-! ### Following -/

theorem lose_obeys {message : String} (h : AdvancesFrom r .operating ∨ AdvancesFrom r .ready)
    (hfirst : Unwritten past) :
    (lose r r.known message occasion.now).Obeys (Move occasion r) past := by
  refine commitThen_obeys (.followed h ?_ rfl) hfirst fun ht hnow => ht.withCondition hnow _ _ _ _
  by_cases hcache : r.spec.enableCache = true
  · exact .inr (.inr ⟨if_pos hcache, hcache⟩)
  · exact .inl (if_neg hcache)

theorem follow_obeys {operation : String}
    (h : AdvancesFrom r .operating ∨ AdvancesFrom r .ready) :
    (follow settings r r.known operation occasion.now).Obeys (Move occasion r) [] := by
  unfold follow
  refine Plan.Meets.orFail_bind fun uid huid => ?_
  refine Plan.Meets.ask_bind (.getOperation h operation) fun found => ?_
  have hfirst : Unwritten [⟨.getOperation operation, .ok found⟩] :=
    unwritten_nil.cons fun _ _ => Call.noConfusion
  cases found with
  | none => exact lose_obeys h hfirst
  | some op =>
    show Plan.Meets _ _ _ (ite _ _ (ite _ _ _))
    split
    · exact lose_obeys h hfirst
    · split
      · have hcommit : (commit r { r.known.operationReady operation occasion.now with
            phase := .ready }).Meets (Move occasion r) (fun _ _ => True)
            [⟨.getOperation operation, .ok (some op)⟩] :=
          commit_meets (.followed h (.inr (.inl rfl)) rfl) hfirst
            (fun ht hnow => ht.withCondition hnow _ _ _ _) trivial trivial
        refine hcommit.bind fun past' _ _ => ?_
        by_cases hready : r.known.phase = .ready
        · rw [if_pos hready]
          exact trivial
        · rw [if_neg hready]
          exact trivial
      · exact commitThen_obeys (.followed h (.inl rfl) rfl) hfirst fun ht hnow =>
          ht.withCondition hnow _ _ _ _

/-! ### Releasing -/

theorem release_meets (h : Releases r) {namespaceName key uid : String}
    {operations : List Operation} {op : Operation} (hkey : r.known.key = some key)
    (huid : r.metadata.uid = some uid)
    (hlist : ⟨.listOperations key, .ok operations⟩ ∈ past) (hop : op ∈ operations) :
    (release namespaceName uid op).Meets (Move occasion r)
      (fun past' _ => ∃ version, op.metadata.resourceVersion = some version ∧
        past' = ⟨.patchOwners op.name version (op.metadata.withoutOwner uid), .ok ()⟩ :: past)
      past := by
  unfold release
  refine Plan.Meets.orFail_bind fun version hversion => ?_
  refine Plan.Meets.ask_bind (.release h hkey huid hlist hop hversion) fun _ => ?_
  exact ⟨version, hversion, rfl⟩

theorem HandedBack.cons {uid : String} {op : Operation} (h : HandedBack uid past op)
    (a : Answered) : HandedBack uid (a :: past) op := by
  obtain ⟨version, hversion, hmem⟩ := h
  exact ⟨version, hversion, List.mem_cons_of_mem _ hmem⟩

/-- After the whole list has been gone through, every operation of it that was held is released. -/
theorem releaseAll_meets (h : Releases r) {namespaceName key uid : String}
    {operations : List Operation} (hkey : r.known.key = some key) (huid : r.metadata.uid = some uid)
    {rest before : List Operation} (hsplit : operations = before ++ rest)
    (hlist : ⟨.listOperations key, .ok operations⟩ ∈ past) (hfirst : Unwritten past)
    (hbefore : ∀ op ∈ before, isHeldBy uid op = true → HandedBack uid past op) :
    (releaseAll namespaceName uid rest).Meets (Move occasion r)
      (fun past _ => Unwritten past ∧ Released r past) past := by
  -- By induction on what is still to be gone through; what comes before it has been handed back.
  induction rest generalizing past before with
  | nil =>
    rw [List.append_nil] at hsplit
    refine ⟨hfirst, fun key' hkey' => ?_⟩
    cases hkey.symm.trans hkey'
    exact ⟨uid, operations, huid, hlist, hsplit ▸ hbefore⟩
  | cons op rest ih =>
    have hsplit' : operations = (before ++ [op]) ++ rest := by rw [hsplit, List.append_assoc]; rfl
    have hop : op ∈ operations := by rw [hsplit]; simp
    unfold releaseAll
    split
    · refine (release_meets h hkey huid hlist hop).bind fun past' _ hpast => ?_
      obtain ⟨version, hversion, rfl⟩ := hpast
      refine ih hsplit' (List.mem_cons_of_mem _ hlist) (hfirst.cons fun _ _ => Call.noConfusion) ?_
      intro seen hseen hheld
      rcases List.mem_append.1 hseen with hseen | hseen
      · exact (hbefore seen hseen hheld).cons _
      · rw [List.mem_singleton.1 hseen]
        exact ⟨version, hversion, by simp⟩
    · rename_i hheld
      refine ih hsplit' hlist hfirst fun seen hseen hseenHeld => ?_
      rcases List.mem_append.1 hseen with hseen | hseen
      · exact hbefore seen hseen hseenHeld
      · rw [List.mem_singleton.1 hseen] at hseenHeld
        exact absurd hseenHeld hheld

theorem releaseClaims_meets (h : Releases r) :
    (releaseClaims r r.known).Meets (Move occasion r)
      (fun past _ => Unwritten past ∧ Released r past) [] := by
  unfold releaseClaims
  cases hkey : r.known.key with
  | none => exact ⟨unwritten_nil, fun key hkey' => absurd (hkey.symm.trans hkey') (by simp)⟩
  | some key =>
    refine Plan.Meets.orFail_bind fun uid huid => ?_
    refine Plan.Meets.ask_bind (.listHeld h hkey) fun operations => ?_
    exact releaseAll_meets h hkey huid (List.nil_append _).symm (by simp)
      (unwritten_nil.cons fun _ _ => Call.noConfusion) fun _ hmem => nomatch hmem

theorem Released.cons (h : Released r past) (a : Answered) : Released r (a :: past) := by
  intro key hkey
  obtain ⟨uid, operations, huid, hlist, hall⟩ := h key hkey
  exact ⟨uid, operations, huid, List.mem_cons_of_mem _ hlist,
    fun op hop hheld => (hall op hop hheld).cons a⟩

theorem delete_obeys (h : r.isDeleting = true) :
    (delete r r.known).Obeys (Move occasion r) [] := by
  unfold delete
  cases hfinalizer : r.hasFinalizer with
  | false => exact trivial
  | true =>
    simp only [Bool.not_true, Bool.false_eq_true, ↓reduceIte]
    split
    · rename_i hphase
      have hreleases : Releases r := ⟨h, hfinalizer, hphase⟩
      refine (releaseClaims_meets hreleases).bind fun past _ hpast => ?_
      obtain ⟨hfirst, hreleased⟩ := hpast
      have hcommit : (commit r { r.known with phase := .deleted }).Meets (Move occasion r)
          (fun past _ => Released r past) past :=
        commit_meets (.deletion h (.inr rfl) rfl) hfirst (fun ht _ => ht) hreleased
          (hreleased.cons _)
      refine hcommit.bind fun past' _ hreleased' => ?_
      exact Plan.Meets.ask_bind (.removeFinalizer hreleases hreleased') fun _ => trivial
    · have hcommit : (commit r { r.known with phase := .deleting }).Meets (Move occasion r)
          (fun _ _ => True) [] :=
        commit_meets (.deletion h (.inl rfl) rfl) unwritten_nil (fun ht _ => ht) trivial trivial
      exact hcommit.bind fun _ _ _ => trivial

/-! ### The whole reconcile -/

theorem advance_obeys (hdeleting : r.isDeleting = false) (hspec : r.spec.validate = .ok ())
    (hplace : r.metadata.namespaceName.isSome) :
    (advance settings occasion r r.known).Obeys (Move occasion r) [] := by
  have hfrom (phase : RequirementPhase) (hphase : r.known.phase = phase) : AdvancesFrom r phase :=
    ⟨hdeleting, hspec, hphase⟩
  unfold advance
  split
  · rename_i hphase
    exact takeIn_obeys (hfrom _ hphase)
  · rename_i hphase
    exact checkCache_obeys (hfrom _ hphase)
  · rename_i hphase _
    exact follow_obeys (.inl (hfrom _ hphase))
  · rename_i hphase _
    split
    · rename_i hcache
      exact commitThen_obeys (.followed (.inl (hfrom _ hphase)) (.inr (.inr ⟨rfl, hcache⟩)) rfl)
        unwritten_nil fun ht _ => ht
    · exact ensureOwned_obeys (hfrom _ hphase) hplace
  · rename_i hphase _
    exact follow_obeys (.inr (hfrom _ hphase))
  · rename_i hphase _
    exact lose_obeys (.inr (hfrom _ hphase)) unwritten_nil
  · exact trivial
  · exact trivial

theorem reportInvalid_obeys {e : Error} (hdeleting : r.isDeleting = false)
    (hspec : r.spec.validate ≠ .ok ()) :
    (reportInvalid r r.known e occasion.now).Obeys (Move occasion r) [] := by
  have hcommit : (commit r (r.known.invalidSpec e.message occasion.now)).Meets (Move occasion r)
      (fun _ _ => True) [] :=
    commit_meets (.invalid hdeleting hspec rfl rfl) unwritten_nil
      (fun ht hnow => ht.withCondition hnow _ _ _ _) trivial trivial
  refine hcommit.bind fun _ written _ => ?_
  cases written with
  | false => exact trivial
  | true => exact trivial

/-- A reconcile makes no calls but its moves, whatever it is answered. -/
theorem plan_obeys (settings : Settings) (occasion : Occasion) (r : Requirement) :
    (plan settings occasion r).Obeys (Move occasion r) [] := by
  unfold plan
  show Plan.Obeys _ _ (ite _ _ (ite _ _ _))
  by_cases hplace : r.metadata.namespaceName.isNone = true
  · rw [if_pos hplace]
    exact trivial
  · rw [if_neg hplace]
    by_cases hdeleting : r.isDeleting = true
    · rw [if_pos hdeleting]
      exact delete_obeys hdeleting
    · rw [if_neg hdeleting]
      have hkept : r.isDeleting = false := by simpa using hdeleting
      cases hspec : r.spec.validate with
      | error e => exact reportInvalid_obeys hkept (by rw [hspec]; simp)
      | ok u =>
        refine advance_obeys hkept hspec ?_
        cases hnamespace : r.metadata.namespaceName with
        | none => exact absurd (by rw [hnamespace]; rfl) hplace
        | some name => rfl

end Reconcile

end WarmPool
