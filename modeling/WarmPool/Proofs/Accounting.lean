import WarmPool.Proofs.Contest.Run
import WarmPool.Proofs.Convergence

/-!
# What a contest comes to

Requirements that compete for the operations of a pool are through when none of them would write
anything any more (`Requirement.Idle`). Then each is ready by what it has won (`Contest.Served`), or
it searches, while nothing is left to be won (`Contest.Unserved`). No two have won the same, and
where one is left without, all the prizes are won: so many are ready as there are requirements, or
as there are prizes where these are fewer (`pool_accounting`).
-/

namespace WarmPool

open Reconcile

/-- A reconcile of the requirement in which nothing goes wrong would write nothing. -/
def Requirement.Idle (r : Requirement) (c : Cluster) : Prop :=
  ∃ (settings : Settings) (occasion : Occasion), occasion.now.Valid ∧
    ∀ call ∈ (Rehearsal.reconcile settings occasion (.calm c) r).2.1.calls, call.isMutation = false

/-- The requirements that are ready. -/
def Cluster.readyRequirements (c : Cluster) : List Requirement :=
  c.requirements.filter fun r => r.known.phase = .ready

theorem Cluster.mem_readyRequirements {c : Cluster} {r : Requirement} :
    r ∈ c.readyRequirements ↔ r ∈ c.requirements ∧ r.known.phase = .ready := by
  unfold readyRequirements
  rw [List.mem_filter, decide_eq_true_iff]

namespace Contest

variable {x : Contest} {c : Cluster} {r q : Requirement} {uid : String}

/-! ### Requirements in the course of the contest -/

namespace State

theorem length_requirements (h : x.State c) :
    c.requirements.length = x.cluster.requirements.length := by
  have hlength := congrArg List.length h.same
  rwa [List.length_map, List.length_map] at hlength

theorem apart (hx : x.Fair) (h : x.State c) :
    (c.requirements.map fun r => r.metadata.place).Nodup := by
  have hplaces := congrArg (List.map Prod.fst) h.same
  rw [List.map_map, List.map_map] at hplaces
  exact hplaces ▸ hx.apart

theorem distinct (hx : x.Fair) (h : x.State c) :
    (c.requirements.map fun r => r.metadata.uid).Nodup := by
  have huids := congrArg (List.map Prod.snd) h.same
  rw [List.map_map, List.map_map] at huids
  exact huids ▸ hx.distinct

theorem stores (hx : x.Fair) (h : x.State c) (hr : r ∈ c.requirements) :
    c.Stores x.namespaceName r := by
  obtain ⟨uid, henters, -⟩ := h.stored r hr
  refine ⟨?_, fun q hq => ?_⟩
  · cases hfound : c.requirement? x.namespaceName r.name with
    | none => exact absurd henters.isAt (List.find?_eq_none.1 hfound r hr)
    | some q =>
      obtain ⟨hq, hat⟩ := Cluster.mem_of_requirement? hfound
      have hplace := (Metadata.isAt_iff.1 hat).trans (Metadata.isAt_iff.1 henters.isAt).symm
      rw [List.inj_on_of_nodup_map (h.apart hx) hq hr hplace]
  · obtain ⟨uid, henters, -⟩ := h.stored q hq
    exact henters.timely

/-- One who has won something is stored. -/
theorem exists_winner (h : x.State c) {prize op : Operation} (hwon : x.Won uid prize op) :
    ∃ r ∈ c.requirements, r.metadata.uid = some uid := by
  obtain ⟨q, hq, huid⟩ := hwon.entrant
  have hknown : q.identity ∈ c.requirements.map Requirement.identity :=
    h.same ▸ List.mem_map_of_mem hq
  obtain ⟨r, hr, heq⟩ := List.mem_map.1 hknown
  exact ⟨r, hr, (congrArg Prod.snd heq).trans huid⟩

/-- A prize is free still, or someone has won it. -/
theorem mem_or_won (hx : x.Fair) (h : x.State c) {prize : Operation} (hprize : prize ∈ x.prizes) :
    prize ∈ c.operations ∨ ∃ uid, ∃ op ∈ c.operations, x.Won uid prize op := by
  have hstored : prize ∈ x.cluster.operations := mem_operations_of_mem_prizes hprize
  have hplace : prize.metadata.place ∈ c.operations.map fun op => op.metadata.place :=
    h.pooled.places ▸ List.mem_map_of_mem hstored
  obtain ⟨op, hop, hsame⟩ := List.mem_map.1 hplace
  rcases h.pooled.origin op hop with horigin | ⟨uid, prize', hwon⟩
  · exact .inl (hx.orderly.eq_of_place horigin hstored hsame ▸ hop)
  · obtain rfl := hx.orderly.eq_of_place (mem_operations_of_mem_prizes hwon.offered) hstored
      (hwon.place.symm.trans hsame)
    exact .inr ⟨uid, op, hop, hwon⟩

end State

/-! ### Requirements that are through -/

/-- The requirement is ready by what it has won. -/
structure Served (x : Contest) (c : Cluster) (uid : String) (r : Requirement) : Prop where
  ready : r.known.phase = .ready
  won : ∃ prize, ∃ op ∈ c.operations, x.Won uid prize op ∧ r.known.operationName = some op.name
  hit : r.known.Shows RequirementStatus.acquiredType .true "CacheHit"

/-- The requirement searches still, while nothing is left to be won. -/
structure Unserved (x : Contest) (c : Cluster) (uid : String) (r : Requirement) : Prop where
  searching : r.known.phase = .cacheChecking
  missed : r.known.Shows RequirementStatus.acquiredType .false "NoOperationAvailable"
  unwon : ∀ prize, ∀ op ∈ c.operations, ¬ x.Won uid prize op
  exhausted : ∀ op ∈ c.operations, op ∉ x.prizes

section

variable {settings : Settings} {occasion : Occasion} {action : Action} {calls : List Call}
  {c' : Cluster}

/-- What a reconcile that writes nothing comes to is reads. -/
theorem reads_of_quiet
    (hquiet : ∀ call ∈ (Rehearsal.reconcile settings occasion (.calm c) r).2.1.calls,
      call.isMutation = false)
    (hperforms : (plan settings occasion r).Performs x.namespaceName c action calls c') :
    ∀ call ∈ calls, call.isMutation = false := by
  obtain ⟨trace, s, hreconcile, rfl, -⟩ := Rehearsal.reconcile_of_performs hperforms
  rwa [hreconcile] at hquiet

/-- The status that it would write at its end is the one that is known. -/
theorem known_eq_of_quiet
    (hquiet : ∀ call ∈ (Rehearsal.reconcile settings occasion (.calm c) r).2.1.calls,
      call.isMutation = false)
    (hperforms : (plan settings occasion r).Performs x.namespaceName c action calls c')
    {s : RequirementStatus} (hcommit : commitCalls r s <:+ calls) : r.known = observed r s := by
  have hstatus : r.status = some (observed r s) := status_of_commitCalls fun call hcall =>
    reads_of_quiet hquiet hperforms call (hcommit.subset hcall)
  exact Requirement.known_of_status hstatus

end

/-- One who searches and writes nothing has found nothing, and shows that. -/
theorem State.finds_nothing (hx : x.Fair) (h : x.State c) (hc : c.Orderly)
    (hr : r ∈ c.requirements) (henters : x.Enters r uid) (hphase : r.known.phase = .cacheChecking)
    (hidle : r.Idle c) :
    Pool.claimedBy? uid (c.listOperations x.namespaceName x.key) = none ∧
      Pool.select? x.cache (c.listOperations x.namespaceName x.key) = none ∧
      r.known.Shows RequirementStatus.acquiredType .false "NoOperationAvailable" := by
  obtain ⟨settings, occasion, hnow, hquiet⟩ := hidle
  have hstores := h.stores hx hr
  have hfrom := henters.live.from_ hphase
  have huid := henters.live.uid
  have hcache : c.cache? x.namespaceName (Cache.nameForKey x.key) = some x.cache := by
    unfold Cluster.cache?
    rw [h.caches]
    exact hx.cache
  have hlisted := h.pooled.listed
  rw [← henters.soughtKey_eq] at hcache hlisted ⊢
  cases hheld : Pool.claimedBy? uid (c.listOperations x.namespaceName (soughtKey r r.known)) with
  | some op =>
    -- It would bind what it holds.
    obtain ⟨c', r', hperforms, -⟩ :=
      @plan_performs_adopting settings _ _ _ _ _ _ hstores hnow hfrom huid _ hcache hheld
    rw [known_eq_of_quiet hquiet hperforms ⟨[_, _], rfl⟩] at hphase
    cases hphase
  | none =>
    cases hselect : Pool.select? x.cache
        (c.listOperations x.namespaceName (soughtKey r r.known)) with
    | some op =>
      -- It would claim what it finds.
      have hmem := Pool.mem_of_select? hselect
      have hprize := hlisted.mem_prizes_of_mem_candidates (Pool.mem_candidates_of_select? hselect)
      obtain ⟨version, hversion⟩ := Option.isSome_iff_exists.1 (hx.versioned op hprize)
      have hop := hc.operation?_eq (List.mem_filter.1 hmem).1 (isAt_of_mem_prizes hx.orderly hprize)
      obtain ⟨c', r', hperforms, -⟩ := @plan_performs_claiming settings _ _ _ _ _ _ hstores hnow
        hfrom huid _ hcache hheld hselect _ hversion (Cluster.patchOwners_stored hop hversion)
      have hclaim := reads_of_quiet hquiet hperforms _
        (List.mem_cons_of_mem _ (List.mem_cons_of_mem _ List.mem_cons_self))
      cases hclaim
    | none =>
      obtain ⟨c', r', hperforms, -⟩ := @plan_performs_waiting settings _ _ _ _ _ hstores hnow hfrom
        huid _ hcache hheld hselect
      refine ⟨rfl, rfl, ?_⟩
      rw [known_eq_of_quiet hquiet hperforms ⟨[_, _], rfl⟩]
      exact (RequirementStatus.shows_withCondition _ _ _ _ _ _).of_conditions rfl

/-- Where one finds nothing, nothing is left. -/
theorem State.unserved (hx : x.Fair) (h : x.State c) (hc : c.Orderly) (hr : r ∈ c.requirements)
    (henters : x.Enters r uid) (hphase : r.known.phase = .cacheChecking) (hidle : r.Idle c) :
    x.Unserved c uid r := by
  obtain ⟨hheld, hselect, hmissed⟩ := h.finds_nothing hx hc hr henters hphase hidle
  refine ⟨hphase, hmissed, fun prize op hop hwon => ?_, fun op hop hprize => ?_⟩
  · exact List.find?_eq_none.1 hheld op (hwon.mem_listOperations hop) hwon.isClaimedBy
  · have hcandidate := mem_candidates_of_mem_prizes (h.pooled.listed.free op hop hprize) hprize
    rw [Pool.candidates_of_select?_eq_none hselect] at hcandidate
    cases hcandidate

/-- One who is bound and writes nothing is ready by what it has won. -/
theorem State.served (hx : x.Fair) (h : x.State c) (hc : c.Orderly) (hr : r ∈ c.requirements)
    (henters : x.Enters r uid) (htells : x.Tells c uid r.known)
    (hphase : r.known.phase = .operating ∨ r.known.phase = .ready) (hidle : r.Idle c) :
    x.Served c uid r := by
  obtain ⟨settings, occasion, hnow, hquiet⟩ := hidle
  obtain ⟨prize, op, hop, hwon, hbound, hhit⟩ := htells.won hphase
  obtain ⟨c', r', hperforms, -⟩ := @plan_performs_ready settings _ _ _ _ _ _ _ (h.stores hx hr)
    hnow (hphase.imp henters.live.from_ henters.live.from_) henters.live.uid hbound
    (hc.operation?_eq hop (hwon.isAt hx.orderly))
    (Pool.isSome_findOwner?_of_isClaimedBy hwon.isClaimedBy) hwon.isReady
  refine ⟨?_, ⟨prize, op, hop, hwon, hbound⟩, hhit⟩
  rw [known_eq_of_quiet hquiet hperforms ⟨[_], rfl⟩]
  rfl

/-- One who would write nothing is through with the contest. -/
theorem State.served_or_unserved (hx : x.Fair) (h : x.State c) (hc : c.Orderly)
    (hr : r ∈ c.requirements) (hidle : r.Idle c) :
    ∃ uid, r.metadata.uid = some uid ∧ (x.Served c uid r ∨ x.Unserved c uid r) := by
  obtain ⟨uid, henters, htells⟩ := h.stored r hr
  refine ⟨uid, henters.live.uid, ?_⟩
  rcases htells.phase_cases with hphase | hphase
  · exact .inr (h.unserved hx hc hr henters hphase hidle)
  · exact .inl (h.served hx hc hr henters htells hphase hidle)

/-! ### Counting -/

/-- The prizes are told apart by their names. -/
theorem nodup_names_prizes (hx : x.cluster.Orderly) :
    (x.prizes.map fun op => some op.name).Nodup := by
  have hstored : x.cluster.operations.Nodup := .of_map _ hx.apart
  have hprizes : x.prizes.Nodup := ((hstored.filter _).filter _).filter _
  refine hprizes.map_on fun a ha b hb hname => ?_
  have hat := isAt_of_mem_prizes hx ha
  rw [Option.some.inj hname] at hat
  exact hx.eq_of_isAt (mem_operations_of_mem_prizes ha) (mem_operations_of_mem_prizes hb) hat
    (isAt_of_mem_prizes hx hb)

/-- All who take part are through. -/
structure Over (x : Contest) (c : Cluster) : Prop where
  state : x.State c
  orderly : c.Orderly
  ended : ∀ r ∈ c.requirements,
    ∃ uid, r.metadata.uid = some uid ∧ (x.Served c uid r ∨ x.Unserved c uid r)

namespace Over

/-- Those that are ready are so by what they have won. -/
theorem served (h : x.Over c) (hr : r ∈ c.readyRequirements) :
    r ∈ c.requirements ∧ ∃ uid, r.metadata.uid = some uid ∧ x.Served c uid r := by
  obtain ⟨hmem, hready⟩ := Cluster.mem_readyRequirements.1 hr
  obtain ⟨uid, huid, hserved | hunserved⟩ := h.ended r hmem
  · exact ⟨hmem, uid, huid, hserved⟩
  · rw [hunserved.searching] at hready
    cases hready

/-- Those that are not ready are without. -/
theorem unserved (h : x.Over c) (hr : r ∈ c.requirements) (hphase : r.known.phase ≠ .ready) :
    ∃ uid, x.Unserved c uid r := by
  obtain ⟨uid, -, hserved | hunserved⟩ := h.ended r hr
  · exact absurd hserved.ready hphase
  · exact ⟨uid, hunserved⟩

/-- No two are ready by the same operation. -/
theorem nodup_operationNames (hx : x.Fair) (h : x.Over c) :
    (c.readyRequirements.map fun r => r.known.operationName).Nodup := by
  have hstored : c.requirements.Nodup := .of_map _ (h.state.apart hx)
  refine (hstored.filter _).map_on fun r hr q hq hname => ?_
  obtain ⟨hmem, uid, huid, hserved⟩ := h.served hr
  obtain ⟨hmem', uid', huid', hserved'⟩ := h.served hq
  obtain ⟨prize, op, hop, hwon, hbound⟩ := hserved.won
  obtain ⟨prize', op', hop', hwon', hbound'⟩ := hserved'.won
  have hat := hwon.isAt hx.orderly
  rw [Option.some.inj (hbound.symm.trans (hname.trans hbound'))] at hat
  -- What has one name is one operation, and that has one winner.
  obtain rfl := h.orderly.eq_of_isAt hop hop' hat (hwon'.isAt hx.orderly)
  obtain rfl := hwon.eq_of_isClaimedBy hwon'.isClaimedBy
  exact List.inj_on_of_nodup_map (h.state.distinct hx) hmem hmem' (huid.trans huid'.symm)

/-- There are no more that are ready than prizes. -/
theorem length_ready_le (hx : x.Fair) (h : x.Over c) :
    c.readyRequirements.length ≤ x.prizes.length := by
  have hsubset : (c.readyRequirements.map fun r => r.known.operationName) ⊆
      x.prizes.map fun op => some op.name := by
    intro name hname
    obtain ⟨r, hr, rfl⟩ := List.mem_map.1 hname
    obtain ⟨-, uid, -, hserved⟩ := h.served hr
    obtain ⟨prize, op, -, hwon, hbound⟩ := hserved.won
    rw [hbound, hwon.name]
    exact List.mem_map_of_mem hwon.offered
  have hlength := (List.subperm_of_subset (h.nodup_operationNames hx) hsubset).length_le
  rwa [List.length_map, List.length_map] at hlength

/-- Where one is without, every prize is won, and its winner is ready by it. -/
theorem length_prizes_le (hx : x.Fair) (h : x.Over c) (hr : r ∈ c.requirements)
    (hphase : r.known.phase ≠ .ready) : x.prizes.length ≤ c.readyRequirements.length := by
  obtain ⟨uid, hunserved⟩ := h.unserved hr hphase
  have hsubset : (x.prizes.map fun op => some op.name) ⊆
      c.readyRequirements.map fun r => r.known.operationName := by
    intro name hname
    obtain ⟨prize, hprize, rfl⟩ := List.mem_map.1 hname
    -- Whoever has won the prize is not without, and so is ready by it.
    rcases h.state.mem_or_won hx hprize with hfree | ⟨uid', op, hop, hwon⟩
    · exact absurd hprize (hunserved.exhausted prize hfree)
    · obtain ⟨q, hq, huid⟩ := h.state.exists_winner hwon
      obtain ⟨uid'', huid', hserved | hlost⟩ := h.ended q hq
      · obtain rfl := Option.some.inj (huid.symm.trans huid')
        obtain ⟨prize', op', hop', hwon', hbound⟩ := hserved.won
        obtain rfl := h.state.pooled.single _ _ _ _ hop' _ hop hwon' hwon
        refine List.mem_map.2 ⟨q, Cluster.mem_readyRequirements.2 ⟨hq, hserved.ready⟩, ?_⟩
        rw [hbound, hwon.name]
      · obtain rfl := Option.some.inj (huid.symm.trans huid')
        exact absurd hwon (hlost.unwon prize op hop)
  have hlength := (List.subperm_of_subset (nodup_names_prizes hx.orderly) hsubset).length_le
  rwa [List.length_map, List.length_map] at hlength

/-- So many are ready as there are requirements, or prizes where these are fewer. -/
theorem length_ready (hx : x.Fair) (h : x.Over c) :
    c.readyRequirements.length = min x.cluster.requirements.length x.prizes.length := by
  have hentrants : c.readyRequirements.length ≤ x.cluster.requirements.length := by
    rw [← h.state.length_requirements]
    exact List.length_filter_le _ _
  have hprizes := h.length_ready_le hx
  by_cases hall : ∀ r ∈ c.requirements, r.known.phase = .ready
  · have hready : c.readyRequirements = c.requirements :=
      List.filter_eq_self.2 fun r hr => decide_eq_true (hall r hr)
    rw [hready, h.state.length_requirements] at hprizes ⊢
    exact (min_eq_left hprizes).symm
  · push Not at hall
    obtain ⟨r, hr, hphase⟩ := hall
    have hwon := h.length_prizes_le hx hr hphase
    omega

end Over

theorem Underway.over (hx : x.Fair) {w : World} (h : x.Underway w)
    (hidle : ∀ r ∈ w.cluster.requirements, r.Idle w.cluster) : x.Over w.cluster where
  state := h.state
  orderly := h.consistent.orderly
  ended r hr := h.state.served_or_unserved hx h.consistent.orderly hr (hidle r hr)

/-- In a contest, a reconcile in which nothing goes wrong is a run of its own. -/
theorem Underway.round (hx : x.Fair) {former : List Cluster}
    (h : Undisturbed rivalry { cluster := x.cluster } { cluster := c, former := former })
    {occasion : Occasion} (hnow : occasion.now.Valid) (settings : Settings) (name : String) :
    ∃ former', Undisturbed rivalry { cluster := x.cluster }
      { cluster := (Rehearsal.round settings x.namespaceName name occasion c).2.2
        former := former' } := by
  unfold Rehearsal.round
  cases hstored : c.requirement? x.namespaceName name with
  | none => exact ⟨former, h⟩
  | some r =>
    obtain ⟨uid, henters, -⟩ := (of_undisturbed hx h).state.stored r
      (Cluster.mem_of_requirement? hstored).1
    exact h.reconcile hstored henters.caching hnow settings

end Contest

/--
Requirements with caching compete for the operations of one pool, by any number of reconciles at a
time and in any order. Once none of them would write anything any more, so many are ready as there
were requirements, or operations to acquire where these were fewer. Each of them is bound to one of
those operations, by name and by a reference to it, and no two to the same. All the others search
still and show that there is nothing for them.
-/
theorem pool_accounting {x : Contest} (hx : x.Fair) {w : World}
    (hrun : Undisturbed rivalry { cluster := x.cluster } w)
    (hidle : ∀ r ∈ w.cluster.requirements, r.Idle w.cluster) :
    w.cluster.requirements.map Requirement.identity =
      x.cluster.requirements.map Requirement.identity ∧
    w.cluster.readyRequirements.length =
      min x.cluster.requirements.length x.prizes.length ∧
    (∀ r ∈ w.cluster.readyRequirements,
      r.known.Shows RequirementStatus.acquiredType .true "CacheHit" ∧
      ∃ uid, ∃ prize ∈ x.prizes, ∃ op, r.metadata.uid = some uid ∧
        r.known.operationName = some prize.name ∧
        w.cluster.operation? x.namespaceName prize.name = some op ∧
        Pool.isClaimedBy uid op = true) ∧
    (w.cluster.readyRequirements.map fun r => r.known.operationName).Nodup ∧
    ∀ r ∈ w.cluster.requirements, r.known.phase ≠ .ready →
      r.known.phase = .cacheChecking ∧
      r.known.Shows RequirementStatus.acquiredType .false "NoOperationAvailable" := by
  have hover : x.Over w.cluster := (Contest.Underway.of_undisturbed hx hrun).over hx hidle
  refine ⟨hover.state.same, hover.length_ready hx, fun r hr => ?_, hover.nodup_operationNames hx,
    fun r hr hphase => ?_⟩
  · obtain ⟨-, uid, huid, hserved⟩ := hover.served hr
    obtain ⟨prize, op, hop, hwon, hbound⟩ := hserved.won
    have hstored := hover.orderly.operation?_eq hop (hwon.isAt hx.orderly)
    rw [hwon.name] at hbound hstored
    exact ⟨hserved.hit, uid, prize, hwon.offered, op, huid, hbound, hstored, hwon.isClaimedBy⟩
  · obtain ⟨uid, hunserved⟩ := hover.unserved hr hphase
    exact ⟨hunserved.searching, hunserved.missed⟩

/-! ### Two for one operation -/

/-- A requirement that searches the pool of the sample. -/
def rivalRequirement (name : String) : Requirement :=
  { searchingRequirement (some "key") with
    metadata :=
      { (searchingRequirement (some "key")).metadata with
        name := some name
        uid := some name
        generation := some 1 } }

/-- Two requirements compete for one operation. -/
def duel : Contest where
  cluster :=
    { Cluster.stocked "dev" "key" (rivalRequirement "one") with
      requirements := [rivalRequirement "one", rivalRequirement "other"] }
  namespaceName := "dev"
  key := "key"
  cache := warmCache "dev" "key"

theorem rivalRequirement_enters (name : String) : duel.Enters (rivalRequirement name) name where
  live := ⟨rfl, validate_sampleRequirement, rfl, rfl⟩
  timely := searchingRequirement_timely (some "key")
  isAt := Metadata.isAt_iff.2 rfl
  caching := rfl
  key := rfl

theorem duel_stocked : duel.cluster.Stocked "dev" "key" := ⟨rfl, rfl⟩

theorem duel_fair : duel.Fair where
  orderly := duel_stocked.orderly (by decide)
  cache := duel_stocked.cache?
  versioned op hop := by
    have hmem := Contest.mem_operations_of_mem_prizes hop
    rw [duel_stocked.operations, List.mem_singleton] at hmem
    rw [hmem]
    rfl
  apart := by decide
  distinct := by decide
  enters r hr := by
    rcases List.mem_pair.1 hr with rfl | rfl
    · exact ⟨_, rivalRequirement_enters "one"⟩
    · exact ⟨_, rivalRequirement_enters "other"⟩
  searches r hr := by
    rcases List.mem_pair.1 hr with rfl | rfl
    · exact ⟨rfl, rfl⟩
    · exact ⟨rfl, rfl⟩
  unheld r _ uid _ op hop := by
    have hlist : op ∈ duel.cluster.listOperations "dev" "key" := hop
    rw [duel_stocked.listOperations, List.mem_singleton] at hlist
    rw [hlist]
    rfl

/-- One of the two is reconciled, then the other, then the first one again, and they are through. -/
theorem duel_ends : ∃ (c : Cluster) (former : List Cluster),
    Undisturbed rivalry { cluster := duel.cluster } { cluster := c, former := former } ∧
    ∀ r ∈ c.requirements, r.Idle c := by
  have hnow : sampleOccasion.now.Valid := by decide
  obtain ⟨_, hone⟩ := Contest.Underway.round duel_fair .refl hnow {} "one"
  obtain ⟨_, hother⟩ := Contest.Underway.round duel_fair hone hnow {} "other"
  obtain ⟨former, hrun⟩ := Contest.Underway.round duel_fair hother hnow {} "one"
  refine ⟨_, former, hrun, fun r hr => ⟨{}, sampleOccasion, hnow, ?_⟩⟩
  revert r
  decide +kernel

/-- One of the two gets the operation, and the other one is left without. -/
theorem pool_accounting_duel : ∃ w, Undisturbed rivalry { cluster := duel.cluster } w ∧
    (∀ r ∈ w.cluster.requirements, r.Idle w.cluster) ∧
    duel.cluster.requirements.length = 2 ∧ duel.prizes.length = 1 ∧
    w.cluster.readyRequirements.length = 1 ∧
    (w.cluster.readyRequirements.map fun r => r.known.operationName).Nodup := by
  obtain ⟨c, former, hrun, hidle⟩ := duel_ends
  have hprizes : duel.prizes.length = 1 := by decide +kernel
  obtain ⟨-, hlength, -, hdistinct, -⟩ := pool_accounting duel_fair hrun hidle
  rw [hprizes] at hlength
  exact ⟨_, hrun, hidle, rfl, hprizes, hlength, hdistinct⟩

end WarmPool
