import WarmPool.Proofs.Contest.Prize
import WarmPool.Proofs.Rest

/-!
# Who takes part

What a requirement that competes for the prizes of a pool is like (`Contest.Enters`), what its
status tells (`Contest.Tells`), and what a reconcile of it has seen (`Contest.Tracks`). Such a
reconcile makes few calls: it reads, claims and writes its status (`Contest.Plays`), and a status
that it writes tells again that it searches or is bound to what it has won
(`Contest.Tracks.tells_of_reports`).
-/

namespace WarmPool

open Reconcile

/-- Only a new requirement gets our finalizer. -/
theorem Reconcile.Move.advancesFrom_of_addFinalizer {occasion : Occasion} {r : Requirement}
    {past : List Answered} {name finalizer : String}
    (h : Move occasion r past (.addFinalizer name finalizer)) : AdvancesFrom r .initial := by
  cases h with
  | addFinalizer h _ => exact h

/-- The place and the UID of a requirement. -/
def Requirement.identity (r : Requirement) : (Option String × Option String) × Option String :=
  (r.metadata.place, r.metadata.uid)

namespace Contest

variable (x : Contest)

/-- A requirement that takes part: it is to be advanced, with caching, by the key of the pool. -/
structure Enters (r : Requirement) (uid : String) : Prop where
  live : r.Live uid
  timely : r.Timely
  isAt : r.metadata.isAt x.namespaceName r.name = true
  caching : r.spec.enableCache = true
  key : r.known.key = some x.key

/-- The status of a requirement that searches or is bound to what it has won. -/
inductive Tells (c : Cluster) (uid : String) (s : RequirementStatus) : Prop
  | searching (hphase : s.phase = .cacheChecking) (hunbound : s.operationName = none)
  | bound (hphase : s.phase = .operating ∨ s.phase = .ready) {prize op : Operation}
      (hop : op ∈ c.operations) (hwon : x.Won uid prize op)
      (hbound : s.operationName = some op.name)
      (hhit : s.Shows RequirementStatus.acquiredType .true "CacheHit")

/-- The contest at first: everyone searches and holds nothing, and the pool is there. -/
structure Fair : Prop where
  orderly : x.cluster.Orderly
  cache : x.cluster.cache? x.namespaceName (Cache.nameForKey x.key) = some x.cache
  versioned : ∀ op ∈ x.prizes, op.metadata.resourceVersion.isSome
  apart : (x.cluster.requirements.map fun r => r.metadata.place).Nodup
  distinct : (x.cluster.requirements.map fun r => r.metadata.uid).Nodup
  enters : ∀ r ∈ x.cluster.requirements, ∃ uid, x.Enters r uid
  searches : ∀ r ∈ x.cluster.requirements,
    r.known.phase = .cacheChecking ∧ r.known.operationName = none
  unheld : ∀ r ∈ x.cluster.requirements, ∀ uid, r.metadata.uid = some uid →
    ∀ op ∈ x.cluster.listOperations x.namespaceName x.key, Pool.isClaimedBy uid op = false

/-- What a reconcile of a requirement that takes part is of, and what it has seen. -/
structure Tracks (c : Cluster) (t : Task) (uid : String) : Prop where
  enters : x.Enters t.requirement uid
  known : t.requirement.identity ∈ x.cluster.requirements.map Requirement.identity
  now : t.occasion.now.Valid
  tells : x.Tells c uid t.requirement.known
  grounds : t.rest.Obeys (Grounds t.occasion t.requirement) t.past
  found : ∀ found, (⟨.getCache (Cache.nameForKey x.key), .ok found⟩ : Answered) ∈ t.past →
    found = some x.cache
  listed : ∀ operations, (⟨.listOperations x.key, .ok operations⟩ : Answered) ∈ t.past →
    x.Listed c operations
  looked : ∀ operation found, (⟨.getOperation operation, .ok found⟩ : Answered) ∈ t.past →
    ∃ prize, ∃ op ∈ c.operations, x.Won uid prize op ∧ found = some op
  claimed : ∀ name seen owners, (⟨.patchOwners name seen owners, .ok ()⟩ : Answered) ∈ t.past →
    ∃ prize, ∃ op ∈ c.operations, x.Won uid prize op ∧ op.name = name

/-- The calls of one who takes part. -/
inductive Plays (t : Task) (uid : String) : Call → Prop
  | write {s : RequirementStatus} (hs : (observed t.requirement s).Timely)
      (h : Reports t.occasion t.requirement t.past s) :
      Plays t uid (.patchStatus t.requirement.name (observed t.requirement s))
  | findCache (name : String) : Plays t uid (.getCache name)
  | look {operation : String} (hbound : t.requirement.known.operationName = some operation) :
      Plays t uid (.getOperation operation)
  | list (key : String) : Plays t uid (.listOperations key)
  | claim {operations : List Operation} {op : Operation} {version : String}
      (hlist : (⟨.listOperations x.key, .ok operations⟩ : Answered) ∈ t.past)
      (hunheld : Pool.claimedBy? uid operations = none)
      (hselect : Pool.select? x.cache operations = some op)
      (hversion : op.metadata.resourceVersion = some version) :
      Plays t uid (.patchOwners op.name version
        (op.metadata.withOwner (holderReference t.requirement uid false)))

variable {x} {c c' : Cluster} {r r' : Requirement} {uid : String} {s s' : RequirementStatus}
  {t : Task} {n : String} {call : Call}

/-! ### Requirements -/

theorem Enters.soughtKey_eq (h : x.Enters r uid) : soughtKey r r.known = x.key := by
  unfold soughtKey
  rw [h.key]
  rfl

theorem Enters.of_alike (h : x.Enters r uid) (halike : r.Alike r')
    (hkey : r'.known.key = some x.key) : x.Enters r' uid where
  live := h.live.alike halike
  timely := halike.timely h.timely
  isAt := by
    have hat := halike.isAt h.isAt
    rwa [show r'.name = r.name from Metadata.anyName_of_isAt hat]
  caching := halike.spec ▸ h.caching
  key := hkey

/-- Requirements at one place are one and the same throughout. -/
theorem Fair.identity_eq (hx : x.Fair) {i j : (Option String × Option String) × Option String}
    (hi : i ∈ x.cluster.requirements.map Requirement.identity)
    (hj : j ∈ x.cluster.requirements.map Requirement.identity) (hplace : i.1 = j.1) : i = j := by
  obtain ⟨r, hr, rfl⟩ := List.mem_map.1 hi
  obtain ⟨q, hq, rfl⟩ := List.mem_map.1 hj
  rw [List.inj_on_of_nodup_map hx.apart hr hq hplace]

/-- A UID that is known belongs to one who takes part. -/
theorem exists_entrant (hknown : r.identity ∈ x.cluster.requirements.map Requirement.identity)
    (huid : r.metadata.uid = some uid) :
    ∃ q ∈ x.cluster.requirements, q.metadata.uid = some uid := by
  obtain ⟨q, hq, heq⟩ := List.mem_map.1 hknown
  exact ⟨q, hq, (congrArg Prod.snd heq).trans huid⟩

/-! ### Statuses -/

namespace Tells

theorem congr (h : x.Tells c uid s) (hphase : s'.phase = s.phase)
    (hoperation : s'.operationName = s.operationName) (hconditions : s'.conditions = s.conditions) :
    x.Tells c uid s' := by
  cases h with
  | searching hsearching hunbound =>
    exact .searching (hphase.trans hsearching) (hoperation.trans hunbound)
  | bound hbound hop hwon hname hhit =>
    exact .bound (hphase ▸ hbound) hop hwon (hoperation.trans hname)
      (hhit.of_conditions hconditions)

theorem later (h : x.Tells c uid s) (hlater : x.Later c c') : x.Tells c' uid s := by
  cases h with
  | searching hsearching hunbound => exact .searching hsearching hunbound
  | bound hbound hop hwon hname hhit =>
    exact .bound hbound (hlater.won _ _ _ hop hwon) hwon hname hhit

theorem phase_cases (h : x.Tells c uid s) :
    s.phase = .cacheChecking ∨ s.phase = .operating ∨ s.phase = .ready := by
  cases h with
  | searching hsearching _ => exact .inl hsearching
  | bound hbound _ _ _ _ => exact .inr hbound

theorem unbound (h : x.Tells c uid s) (hphase : s.phase = .cacheChecking) :
    s.operationName = none := by
  cases h with
  | searching _ hunbound => exact hunbound
  | bound hbound _ _ _ _ =>
    rw [hphase] at hbound
    rcases hbound with hbound | hbound
    · cases hbound
    · cases hbound

/-- One who does not search is bound. -/
theorem won (h : x.Tells c uid s) (hphase : s.phase = .operating ∨ s.phase = .ready) :
    ∃ prize, ∃ op ∈ c.operations, x.Won uid prize op ∧ s.operationName = some op.name ∧
      s.Shows RequirementStatus.acquiredType .true "CacheHit" := by
  cases h with
  | searching hsearching _ =>
    rw [hsearching] at hphase
    rcases hphase with hphase | hphase
    · cases hphase
    · cases hphase
  | bound _ hop hwon hbound hhit => exact ⟨_, _, hop, hwon, hbound, hhit⟩

/-- A condition of another type and another phase of the same kind tell the same. -/
theorem follow (h : x.Tells c uid r.known)
    (hphase : r.known.phase = .operating ∨ r.known.phase = .ready)
    (hnext : s.phase = .operating ∨ s.phase = .ready)
    (hoperation : s.operationName = r.known.operationName)
    {status : ConditionStatus} {reason message : String} {now : Timestamp}
    (hconditions : s.conditions =
      (r.known.withCondition RequirementStatus.readyType status reason message now).conditions) :
    x.Tells c uid s := by
  have htypes : RequirementStatus.readyType ≠ RequirementStatus.acquiredType := by decide
  obtain ⟨prize, op, hop, hwon, hbound, hhit⟩ := h.won hphase
  exact .bound hnext hop hwon (hoperation.trans hbound)
    ((hhit.withCondition htypes status reason message now).of_conditions hconditions)

end Tells

/-! ### Reconciles -/

namespace Tracks

theorem later (h : x.Tracks c t uid) (hlater : x.Later c c') : x.Tracks c' t uid where
  enters := h.enters
  known := h.known
  now := h.now
  tells := h.tells.later hlater
  grounds := h.grounds
  found := h.found
  listed operations hlist := (h.listed operations hlist).later hlater
  looked operation found hlook := by
    obtain ⟨prize, op, hop, hwon, hfound⟩ := h.looked operation found hlook
    exact ⟨prize, op, hlater.won _ _ _ hop hwon, hwon, hfound⟩
  claimed name seen owners hclaim := by
    obtain ⟨prize, op, hop, hwon, hname⟩ := h.claimed name seen owners hclaim
    exact ⟨prize, op, hlater.won _ _ _ hop hwon, hwon, hname⟩

/-- Nobody is being deleted. -/
theorem not_releases (h : x.Tracks c t uid) : ¬ Releases t.requirement := fun hreleases =>
  absurd hreleases.1 (by simp [h.enters.live.kept])

theorem not_advancesFrom_initial (h : x.Tracks c t uid) :
    ¬ AdvancesFrom t.requirement .initial := by
  intro hadvances
  rcases h.tells.phase_cases with hphase | hphase | hphase
  all_goals
    rw [hadvances.2.2] at hphase
    cases hphase

/-- One who is not searching is bound to what it has won. -/
theorem not_unbound (h : x.Tracks c t uid)
    (hadvances : AdvancesFrom t.requirement .operating ∨ AdvancesFrom t.requirement .ready) :
    t.requirement.known.operationName ≠ none := by
  obtain ⟨prize, op, -, -, hbound, -⟩ :=
    h.tells.won (hadvances.imp (fun h => h.2.2) fun h => h.2.2)
  rw [hbound]
  exact Option.some_ne_none _

theorem not_lost (h : x.Tracks c t uid)
    (hadvances : AdvancesFrom t.requirement .operating ∨ AdvancesFrom t.requirement .ready) :
    ¬ Lost t.requirement t.past := by
  intro hlost
  cases hlost with
  | unbound hunbound => exact h.not_unbound hadvances hunbound
  | deleted _ hop =>
    obtain ⟨prize, op, -, -, hfound⟩ := h.looked _ _ hop
    cases hfound
  | released _ huid hop howner =>
    obtain ⟨prize, op, -, hwon, hfound⟩ := h.looked _ _ hop
    obtain rfl := Option.some.inj hfound
    obtain rfl := Option.some.inj (huid.symm.trans h.enters.live.uid)
    obtain ⟨o, ho, -, houid, -⟩ := Pool.isClaimedBy_iff.1 hwon.isClaimedBy
    exact absurd (isSome_findOwner?_of_mem ho houid) (by simp [howner])

/-- What a search shows as held is won, since nobody held anything at first. -/
theorem won_of_claimedBy? (hx : x.Fair) (h : x.Tracks c t uid) {operations : List Operation}
    {op : Operation} (hlisted : x.Listed c operations)
    (hheld : Pool.claimedBy? uid operations = some op) :
    ∃ prize, op ∈ c.operations ∧ x.Won uid prize op := by
  have hmem := List.mem_of_find?_eq_some hheld
  have hclaimed : Pool.isClaimedBy uid op = true := List.find?_some hheld
  rcases hlisted.origin op hmem with hfirst | ⟨uid', prize, hwon⟩
  · obtain ⟨q, hq, hquid⟩ := exists_entrant h.known h.enters.live.uid
    exact absurd hclaimed (by simp [hx.unheld q hq uid hquid op hfirst])
  · obtain rfl := hwon.eq_of_isClaimedBy hclaimed
    exact ⟨prize, hlisted.taken _ _ op hmem hwon, hwon⟩

/-- A status that is written tells that the requirement searches, or what it has won. -/
theorem tells_of_reports (hx : x.Fair) (h : x.Tracks c t uid)
    (hreports : Reports t.occasion t.requirement t.past s) :
    x.Tells c uid s ∧ s.key = some x.key := by
  have hkey := h.enters.key
  have hsought := h.enters.soughtKey_eq
  cases hreports with
  | deleting hdeleting _ => exact absurd hdeleting (by simp [h.enters.live.kept])
  | deleted hreleases => exact absurd hreleases h.not_releases
  | invalid _ hspec _ => exact absurd h.enters.live.valid hspec
  | taken hadvances => exact absurd hadvances h.not_advancesFrom_initial
  | made _ hnone =>
    rw [hsought] at hnone
    exact absurd (h.found _ hnone) (by simp)
  | waiting hadvances _ _ _ =>
    exact ⟨.searching hadvances.2.2 (h.tells.unbound hadvances.2.2), congrArg some hsought⟩
  | @bound hadvances uid' cache operations op hsearched hheld =>
    obtain rfl := Option.some.inj (hsearched.uid.symm.trans h.enters.live.uid)
    have hlist := hsearched.listed
    rw [hsought] at hlist
    have hhit : (binding t.requirement op.name t.occasion.now).Shows RequirementStatus.acquiredType
        .true "CacheHit" :=
      (RequirementStatus.shows_withCondition _ _ _ _ _ _).of_conditions rfl
    refine ⟨?_, congrArg some hsought⟩
    rcases hheld with hheld | ⟨version, owners, hclaim⟩
    · obtain ⟨prize, hop, hwon⟩ := h.won_of_claimedBy? hx (h.listed _ hlist) hheld
      exact .bound (.inl rfl) hop hwon rfl hhit
    · obtain ⟨prize, op', hop, hwon, hname⟩ := h.claimed _ _ _ hclaim
      exact .bound (.inl rfl) hop hwon (congrArg some hname.symm) hhit
  | owned hadvances hunbound _ _ => exact absurd hunbound (h.not_unbound (.inl hadvances))
  | unbound hadvances hunbound _ => exact absurd hunbound (h.not_unbound (.inl hadvances))
  | lost hadvances hlost _ => exact absurd hlost (h.not_lost hadvances)
  | ready hadvances _ _ =>
    exact ⟨h.tells.follow (hadvances.imp (fun h => h.2.2) fun h => h.2.2) (.inr rfl) rfl rfl, hkey⟩
  | notReady hadvances _ _ =>
    exact ⟨h.tells.follow (hadvances.imp (fun h => h.2.2) fun h => h.2.2) (.inl rfl) rfl rfl, hkey⟩

/-- The calls that a reconcile of one who takes part comes to. -/
theorem plays (h : x.Tracks c t uid) (hmove : Move t.occasion t.requirement t.past call)
    (hground : Grounds t.occasion t.requirement t.past call) : x.Plays t uid call := by
  have hsought := h.enters.soughtKey_eq
  have hcached : (⟨.getCache (Cache.nameForKey (soughtKey t.requirement t.requirement.known)),
      .ok none⟩ : Answered) ∉ t.past := by
    intro hnone
    rw [hsought] at hnone
    exact absurd (h.found _ hnone) (by simp)
  cases call with
  | patchStatus name status =>
    obtain ⟨s, rfl, hreports⟩ := hground
    obtain ⟨rfl, -, -, htimely⟩ := hmove.patchStatus_cases
    exact .write (htimely h.enters.timely.2 h.now) hreports
  | addFinalizer name finalizer =>
    exact absurd hmove.advancesFrom_of_addFinalizer h.not_advancesFrom_initial
  | removeFinalizer name finalizer =>
    exact absurd hmove.removeFinalizer_cases.2.1 h.not_releases
  | getCache name => exact .findCache name
  | createCache cache => exact absurd hground hcached
  | getOperation operation => exact .look hground
  | listOperations key => exact .list key
  | createOperation op =>
    have hplain : t.requirement.spec.enableCache = false := hground
    exact absurd h.enters.caching (by simp [hplain])
  | patchOwners name seen owners =>
    obtain ⟨key, uid', operations, op, hlist, -, rfl, hversion, huid, hkind⟩ :=
      hmove.patchOwners_cases
    obtain rfl := Option.some.inj (huid.symm.trans h.enters.live.uid)
    rcases hkind with ⟨cache, -, rfl, hpast, hunheld, hselect, rfl⟩ | ⟨hreleases, -⟩
    · have hfound : (⟨.getCache (Cache.nameForKey x.key), .ok (some cache)⟩ : Answered) ∈
          t.past := by
        rw [hpast, hsought]
        exact List.mem_cons_of_mem _ List.mem_cons_self
      obtain rfl := Option.some.inj (h.found _ hfound)
      exact .claim (hsought ▸ hlist) hunheld hselect hversion
    · exact absurd hreleases h.not_releases

/-- What is seen after an answer. -/
theorem answered (h : x.Tracks c t uid) {next : Except Error call.Reply → Plan Action}
    (hrest : t.rest = .call n call next) {reply : Except Error call.Reply}
    (hfound : ∀ found,
      (⟨call, reply⟩ : Answered) = ⟨.getCache (Cache.nameForKey x.key), .ok found⟩ →
        found = some x.cache)
    (hlisted : ∀ operations, (⟨call, reply⟩ : Answered) = ⟨.listOperations x.key, .ok operations⟩ →
      x.Listed c operations)
    (hlooked : ∀ operation found,
      (⟨call, reply⟩ : Answered) = ⟨.getOperation operation, .ok found⟩ →
        ∃ prize, ∃ op ∈ c.operations, x.Won uid prize op ∧ found = some op)
    (hclaimed : ∀ name seen owners,
      (⟨call, reply⟩ : Answered) = ⟨.patchOwners name seen owners, .ok ()⟩ →
        ∃ prize, ∃ op ∈ c.operations, x.Won uid prize op ∧ op.name = name) :
    x.Tracks c (t.answered hrest reply) uid where
  enters := h.enters
  known := h.known
  now := h.now
  tells := h.tells
  grounds := by
    have hgrounds := h.grounds
    rw [hrest] at hgrounds
    exact hgrounds.2 reply
  found found hfind := by
    rcases List.mem_cons.1 hfind with hnew | hbefore
    · exact hfound found hnew.symm
    · exact h.found found hbefore
  listed operations hlist := by
    rcases List.mem_cons.1 hlist with hnew | hbefore
    · exact hlisted operations hnew.symm
    · exact h.listed operations hbefore
  looked operation found hlook := by
    rcases List.mem_cons.1 hlook with hnew | hbefore
    · exact hlooked operation found hnew.symm
    · exact h.looked operation found hbefore
  claimed name seen owners hclaim := by
    rcases List.mem_cons.1 hclaim with hnew | hbefore
    · exact hclaimed name seen owners hnew.symm
    · exact h.claimed name seen owners hbefore

/-- A failure shows nothing. -/
theorem failed (h : x.Tracks c t uid) {next : Except Error call.Reply → Plan Action}
    (hrest : t.rest = .call n call next) (e : Error) :
    x.Tracks c (t.answered hrest (.error e)) uid := by
  refine h.answered hrest (fun _ heq => ?_) (fun _ heq => ?_) (fun _ _ heq => ?_)
    fun _ _ _ heq => ?_
  all_goals
    rw [Answered.mk.injEq] at heq
    obtain ⟨rfl, hreply⟩ := heq
    cases hreply

end Tracks

end Contest

end WarmPool
