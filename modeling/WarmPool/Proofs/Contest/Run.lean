import WarmPool.Proofs.Contest.Entrant

/-!
# The course of a contest

Requirements compete for the prizes of a pool: they are reconciled whenever and as often as one
likes, several reconciles of one requirement at once included, any of their calls may fail or be cut
off, and nobody else writes (`rivalry`, `Undisturbed`). One reconcile after the other, each of them
in peace, is the plainest of these runs (`Undisturbed.reconcile`). What holds at every moment is
`Contest.Underway`: the operations are free or won in order, every requirement searches or is bound
to what it has won, and every reconcile has seen no less.
-/

namespace WarmPool

open Reconcile

/-! ### Runs without others -/

/--
A reconcile starts at any time from a stored requirement, other reconciles of that requirement or
not, reads show the present state, and others may write nothing.
-/
def rivalry : Surroundings where
  starts w occasion r := occasion.now.Valid ∧ ∃ namespaceName name,
    w.cluster.requirement? namespaceName name = some r
  views w view := view = w.cluster
  license :=
    { requirements := fun _ _ => False
      write := fun _ _ => False
      make := fun _ => False }

theorem rivalry_faithful : rivalry.Faithful := fun _ _ h => .inl h

/--
The worlds that runs lead to while nobody else writes: every step is one of the reconciles, so that
it changes them (`Step.tasks_ne_or_others`).
-/
inductive Undisturbed (env : Surroundings) (w₀ : World) : World → Prop
  | refl : Undisturbed env w₀ w₀
  | step {w w' : World} (h : Undisturbed env w₀ w) (hstep : Step env w w')
      (hown : w'.tasks ≠ w.tasks) : Undisturbed env w₀ w'

theorem Reconcile.Plan.event_ne {α : Type} (e : Event) (next : Plan α) : next ≠ .event e next := by
  intro h
  have hsize := congrArg sizeOf h
  simp only [Plan.event.sizeOf_spec] at hsize
  omega

theorem Reconcile.Plan.measure_ne {α : Type} (m : Measure) (next : Plan α) :
    next ≠ .measure m next := by
  intro h
  have hsize := congrArg sizeOf h
  simp only [Plan.measure.sizeOf_spec] at hsize
  omega

theorem World.tasks_ne {before after : List Task} {t t' : Task} (h : t' ≠ t) :
    before ++ t' :: after ≠ before ++ t :: after := fun heq =>
  h (List.cons.inj (List.append_cancel_left heq)).1

/-- A reconcile is not the same after its next call. -/
theorem Task.answered_ne {t : Task} {n : String} {c : Call}
    {next : Except Error c.Reply → Plan Action} (h : t.rest = .call n c next)
    (reply : Except Error c.Reply) : t.answered h reply ≠ t := fun heq =>
  List.cons_ne_self _ _ (congrArg Task.past heq)

theorem Task.told_ne {t : Task} {e : Event} {next : Plan Action} (h : t.rest = .event e next) :
    t.told h ≠ t := fun heq =>
  Plan.event_ne e next ((congrArg Task.rest heq).trans h)

theorem Task.counted_ne {t : Task} {m : Measure} {next : Plan Action}
    (h : t.rest = .measure m next) : t.counted h ≠ t := fun heq =>
  Plan.measure_ne m next ((congrArg Task.rest heq).trans h)

/-- A step that leaves the reconciles as they are is a write of someone else. -/
theorem Step.tasks_ne_or_others {env : Surroundings} {w w' : World} (h : Step env w w') :
    w'.tasks ≠ w.tasks ∨ Others env.license w.cluster w'.cluster := by
  cases h with
  | start settings _ => exact .inl (List.cons_ne_self _ _)
  | event htasks hrest => exact .inl (htasks ▸ World.tasks_ne (Task.told_ne hrest))
  | measure htasks hrest => exact .inl (htasks ▸ World.tasks_ne (Task.counted_ne hrest))
  | call fate htasks hrest _ _ =>
    exact .inl (htasks ▸ World.tasks_ne (Task.answered_ne hrest _))
  | @stop before after t htasks =>
    refine .inl fun heq => ?_
    have hlength := congrArg List.length (heq.trans htasks)
    simp only [List.length_append, List.length_cons] at hlength
    omega
  | others hothers => exact .inr hothers

section

variable {w₀ : World} {c : Cluster} {former : List Cluster} {t : Task}

/-- The rest of a reconcile with caching is carried out to its end. -/
theorem Undisturbed.carryOut
    (h : Undisturbed rivalry w₀ { cluster := c, former := former, tasks := [t] })
    (hcaching : t.requirement.spec.enableCache = true) {p : Plan Action} (hrest : t.rest = p)
    (hgrounds : p.Obeys (Grounds t.occasion t.requirement) t.past) (timeout elapsed : Duration) :
    ∃ former', Undisturbed rivalry w₀
      { cluster := (Rehearsal.run timeout elapsed (.calm c) p).2.2.cluster
        former := former' } := by
  have htasks : [t] = [] ++ t :: [] := rfl
  induction p generalizing t c former elapsed with
  | done result =>
    have hstep : Step rivalry { cluster := c, former := former, tasks := [t] }
        { cluster := c, former := former, tasks := [] ++ [] } := .stop htasks
    exact ⟨former, h.step hstep (List.cons_ne_nil _ _).symm⟩
  | call n call next ih =>
    have hroom : c.HasRoom n call := by
      rintro op rfl
      have hplain : t.requirement.spec.enableCache = false := hgrounds.1
      exact absurd hcaching (by simp [hplain])
    have hstep : Step rivalry { cluster := c, former := former, tasks := [t] } _ :=
      .call .served htasks hrest rfl fun _ => hroom
    have hnext := h.step hstep (World.tasks_ne (Task.answered_ne hrest _))
    obtain ⟨former', hend⟩ := ih _ hnext hcaching rfl (hgrounds.2 _) (elapsed + .zero) rfl
    refine ⟨former', ?_⟩
    rw [Rehearsal.run_call _ rfl rfl]
    exact hend
  | event e next ih =>
    have hstep : Step rivalry { cluster := c, former := former, tasks := [t] } _ :=
      .event htasks hrest
    have hnext := h.step hstep (World.tasks_ne (Task.told_ne hrest))
    exact ih hnext hcaching rfl hgrounds elapsed rfl
  | measure m next ih =>
    have hstep : Step rivalry { cluster := c, former := former, tasks := [t] } _ :=
      .measure htasks hrest
    have hnext := h.step hstep (World.tasks_ne (Task.counted_ne hrest))
    exact ih hnext hcaching rfl hgrounds elapsed rfl

/-- A reconcile of a requirement with caching in which nothing goes wrong is a run of its own. -/
theorem Undisturbed.reconcile (h : Undisturbed rivalry w₀ { cluster := c, former := former })
    {namespaceName name : String} {r : Requirement}
    (hstored : c.requirement? namespaceName name = some r)
    (hcaching : r.spec.enableCache = true) {occasion : Occasion} (hnow : occasion.now.Valid)
    (settings : Settings) :
    ∃ former', Undisturbed rivalry w₀
      { cluster := (Rehearsal.reconcile settings occasion (.calm c) r).2.2.cluster
        former := former' } := by
  have hstep : Step rivalry { cluster := c, former := former } _ :=
    .start settings ⟨hnow, namespaceName, name, hstored⟩
  have hstarted := h.step hstep (List.cons_ne_nil _ _)
  obtain ⟨former', hend⟩ := hstarted.carryOut hcaching rfl (plan_grounds settings occasion r)
    settings.timeout .zero
  rw [Rehearsal.cluster_reconcile]
  exact ⟨former', hend⟩

end

/-! ### Writes of owners -/

namespace Cluster

variable {c : Cluster} {namespaceName name seen : String} {owners : List OwnerReference}

theorem caches_patchOwners :
    (c.patchOwners namespaceName name seen owners).2.caches = c.caches := by
  rw [patchOwners_eq]
  split
  · rfl
  · split
    · rfl
    · rfl

/-- Owners are written to the operation that has the version seen, or nowhere. -/
theorem patchOwners_written (hc : c.Orderly) :
    (c.patchOwners namespaceName name seen owners).2.operations = c.operations ∨
    ∃ old, c.operation? namespaceName name = some old ∧
      old.metadata.resourceVersion = some seen ∧
      (c.patchOwners namespaceName name seen owners).2.operations =
        updateWhere (fun op => op.metadata.isAt namespaceName name)
          (fun _ => (old.owned owners).stamped c.nextVersion.1) c.operations := by
  rw [patchOwners_eq]
  cases hstored : c.operation? namespaceName name with
  | none => exact .inl rfl
  | some old =>
    by_cases hversion : old.metadata.resourceVersion = some seen
    · simp only [hversion, ↓reduceIte]
      refine .inr ⟨old, rfl, hversion, List.map_congr_left fun op hop => ?_⟩
      by_cases hat : op.metadata.isAt namespaceName name = true
      · obtain ⟨hold, holdAt⟩ := mem_of_operation? hstored
        rw [if_pos hat, if_pos hat, hc.eq_of_isAt hop hold hat holdAt]
      · rw [if_neg hat, if_neg hat]
    · simp only [hversion, ↓reduceIte]
      exact .inl rfl

end Cluster

namespace Contest

/-! ### The cluster -/

/-- The cluster in the course of the contest. -/
structure State (x : Contest) (c : Cluster) : Prop where
  caches : c.caches = x.cluster.caches
  pooled : x.Pooled c
  same : c.requirements.map Requirement.identity =
    x.cluster.requirements.map Requirement.identity
  stored : ∀ r ∈ c.requirements, ∃ uid, x.Enters r uid ∧ x.Tells c uid r.known

variable {x : Contest} {c c' : Cluster} {w w' : World} {t : Task} {n uid : String} {call : Call}

/-- Nothing is won at first. -/
theorem Fair.not_won (hx : x.Fair) {prize op : Operation} (hop : op ∈ x.cluster.operations) :
    ¬ x.Won uid prize op := by
  intro hwon
  obtain rfl := hx.orderly.eq_of_place hop (mem_operations_of_mem_prizes hwon.offered) hwon.place
  exact hwon.not_mem_prizes hwon.offered

theorem Fair.state (hx : x.Fair) : x.State x.cluster where
  caches := rfl
  pooled :=
    { places := rfl
      origin := fun _ hop => .inl hop
      first := fun _ _ _ hop hwon => absurd hwon (hx.not_won hop)
      single := fun _ _ _ _ hop _ _ hwon _ => absurd hwon (hx.not_won hop) }
  same := rfl
  stored r hr := by
    obtain ⟨uid, henters⟩ := hx.enters r hr
    obtain ⟨hphase, hunbound⟩ := hx.searches r hr
    exact ⟨uid, henters, .searching hphase hunbound⟩

namespace State

/-- What is done to the operations concerns the requirements only in that more is won. -/
theorem of_later (h : x.State c) (hpooled : x.Pooled c') (hlater : x.Later c c')
    (hcaches : c'.caches = c.caches) (hrequirements : c'.requirements = c.requirements) :
    x.State c' where
  caches := hcaches.trans h.caches
  pooled := hpooled
  same := by rw [hrequirements, h.same]
  stored r hr := by
    obtain ⟨uid, henters, htells⟩ := h.stored r (hrequirements ▸ hr)
    exact ⟨uid, henters, htells.later hlater⟩

/-- A status that tells of the contest is written to the requirement of its reconcile. -/
theorem patchStatus (hx : x.Fair) (h : x.State c) {q : Requirement} (hq : x.Enters q uid)
    (hknown : q.identity ∈ x.cluster.requirements.map Requirement.identity)
    {s : RequirementStatus} (hs : s.Timely) (htells : x.Tells c uid s) (hkey : s.key = some x.key) :
    x.State (c.patchStatus x.namespaceName q.name s).2 := by
  have hpooled : x.Pooled (c.patchStatus x.namespaceName q.name s).2 :=
    h.pooled.of_operations_eq (Cluster.operations_patchStatus c _ _ _)
  have hlater : x.Later c (c.patchStatus x.namespaceName q.name s).2 :=
    .of_operations_eq (Cluster.operations_patchStatus c _ _ _)
  have hcaches := Cluster.caches_patchStatus c x.namespaceName q.name s
  have hupdated : (c.patchStatus x.namespaceName q.name s).2.requirements = c.requirements ∨
      (c.patchStatus x.namespaceName q.name s).2.requirements =
        updateWhere (fun r => r.metadata.isAt x.namespaceName q.name) (·.withStatus s)
          c.requirements := by
    unfold Cluster.patchStatus
    split
    · exact .inr rfl
    · exact .inl rfl
  rcases hupdated with hsame | hupdated
  · exact h.of_later hpooled hlater hcaches hsame
  refine ⟨hcaches.trans h.caches, hpooled, ?_, fun r' hr' => ?_⟩
  · rw [hupdated, ← h.same]
    unfold updateWhere
    rw [List.map_map]
    refine List.map_congr_left fun r hr => ?_
    obtain ⟨uid', henters, -⟩ := h.stored r hr
    rw [Function.comp_apply]
    split
    · unfold Requirement.identity
      rw [Requirement.withStatus_place henters.timely hs,
        Requirement.withStatus_uid henters.timely hs]
    · rfl
  · rw [hupdated] at hr'
    obtain ⟨r, hr, rfl⟩ := mem_updateWhere.1 hr'
    obtain ⟨uid', henters, htellsBefore⟩ := h.stored r hr
    split
    · rename_i hat
      -- The requirement at the place is the one of the reconcile.
      have hidentity : r.identity = q.identity := by
        refine hx.identity_eq (h.same ▸ List.mem_map_of_mem hr) hknown ?_
        exact (Metadata.isAt_iff.1 hat).trans (Metadata.isAt_iff.1 hq.isAt).symm
      have huid : some uid' = some uid :=
        henters.live.uid.symm.trans ((congrArg Prod.snd hidentity).trans hq.live.uid)
      obtain rfl := Option.some.inj huid
      have hwritten := Requirement.withStatus_known henters.timely hs
      refine ⟨uid', henters.of_alike (Requirement.alike_withStatus henters.timely hs) ?_, ?_⟩
      · rw [hwritten]
        show s.key.or r.known.key = some x.key
        rw [hkey]
        rfl
      · rw [hwritten]
        exact (htells.later hlater).congr rfl rfl rfl
    · exact ⟨uid', henters, htellsBefore.later hlater⟩

end State

/-! ### Calls -/

/-- What a reconcile has listed is remembered. -/
def Remembers (x : Contest) (c : Cluster) (t : Task) : Prop :=
  ∀ operations, (⟨.listOperations x.key, .ok operations⟩ : Answered) ∈ t.past →
    ∀ op ∈ operations, c.Recalls op ∧ op.metadata.namespaceName = some x.namespaceName

namespace Tracks

/--
A claim that finds the version seen finds the operation that was selected, and what it writes is
won.
-/
theorem wins (h : x.Tracks c t uid) (hseen : x.Remembers c t) {operations : List Operation}
    {op old : Operation} {version : String}
    (hlist : (⟨.listOperations x.key, .ok operations⟩ : Answered) ∈ t.past)
    (hselect : Pool.select? x.cache operations = some op)
    (hversion : op.metadata.resourceVersion = some version)
    (hstored : c.operation? x.namespaceName op.name = some old)
    (hsame : old.metadata.resourceVersion = some version) (version' : String) :
    old = op ∧ x.Won uid op ((op.owned (op.metadata.withOwner
      (holderReference t.requirement uid false))).stamped version') := by
  obtain ⟨hmem, hat⟩ := Cluster.mem_of_operation? hstored
  obtain ⟨hrecalls, hnamespace⟩ := hseen operations hlist op (Pool.mem_of_select? hselect)
  have hprize : op ∈ x.prizes := (h.listed operations hlist).mem_prizes_of_mem_candidates
    (Pool.mem_candidates_of_select? hselect)
  exact ⟨hrecalls.eq_of_stored hnamespace hmem hat (hsame.trans hversion.symm), hprize,
    exists_entrant h.known h.enters.live.uid, holderReference t.requirement uid false, version',
    rfl, rfl, rfl, rfl⟩

/-- A call that is served keeps what holds of the cluster. -/
theorem serve (hx : x.Fair) (h : x.Tracks c t uid) (hc : c.Orderly) (hstate : x.State c)
    (hseen : x.Remembers c t) (hplays : x.Plays t uid call) :
    x.State (Cluster.serve x.namespaceName c c call).2 ∧
      x.Later c (Cluster.serve x.namespaceName c c call).2 := by
  cases hplays with
  | @write s hs hreports =>
    obtain ⟨htells, hkey⟩ := h.tells_of_reports hx hreports
    exact ⟨hstate.patchStatus hx h.enters h.known hs (htells.congr rfl rfl rfl) hkey,
      .of_operations_eq (Cluster.operations_patchStatus c _ _ _)⟩
  | findCache name => exact ⟨hstate, .refl x c⟩
  | look _ => exact ⟨hstate, .refl x c⟩
  | list key => exact ⟨hstate, .refl x c⟩
  | @claim operations op version hlist hunheld hselect hversion =>
    let owners := op.metadata.withOwner (holderReference t.requirement uid false)
    have hrequirements : (c.patchOwners x.namespaceName op.name version owners).2.requirements =
        c.requirements :=
      @Cluster.requirements_serve c c x.namespaceName (.patchOwners op.name version owners) rfl
    have hkeep (hpooled : x.Pooled (c.patchOwners x.namespaceName op.name version owners).2)
        (hlater : x.Later c (c.patchOwners x.namespaceName op.name version owners).2) :
        x.State (c.patchOwners x.namespaceName op.name version owners).2 :=
      hstate.of_later hpooled hlater Cluster.caches_patchOwners hrequirements
    rcases @Cluster.patchOwners_written c x.namespaceName op.name version owners hc with
      hsame | ⟨old, hstored, hsame, hwritten⟩
    · exact ⟨hkeep (hstate.pooled.of_operations_eq hsame) (.of_operations_eq hsame),
        .of_operations_eq hsame⟩
    · obtain ⟨rfl, hwon⟩ := h.wins hseen hlist hselect hversion hstored hsame c.nextVersion.1
      have hclaims : x.Claims c _ uid operations old _ :=
        ⟨(Cluster.mem_of_operation? hstored).1, hwritten, hwon, h.listed operations hlist, hunheld,
          hselect⟩
      have hlater := hclaims.later hx.orderly hc
      exact ⟨hkeep (hclaims.pooled hx.orderly hc hstate.pooled) hlater, hlater⟩

/-- A call that is served shows the present state to its reconcile. -/
theorem served (hx : x.Fair) (h : x.Tracks c t uid) (hc : c.Orderly) (hstate : x.State c)
    (hseen : x.Remembers c t) (hplays : x.Plays t uid call)
    {next : Except Error call.Reply → Plan Action} (hrest : t.rest = .call n call next) :
    x.Tracks (Cluster.serve x.namespaceName c c call).2
      (t.answered hrest (Cluster.serve x.namespaceName c c call).1) uid := by
  have hlater := (h.serve hx hc hstate hseen hplays).2
  refine (h.later hlater).answered hrest (fun found heq => ?_) (fun operations heq => ?_)
    (fun operation found heq => ?_) fun name seen owners heq => ?_
  all_goals
    rw [Answered.mk.injEq] at heq
    obtain ⟨rfl, hreply⟩ := heq
    have hreply := eq_of_heq hreply
  · have hfound : c.cache? x.namespaceName (Cache.nameForKey x.key) = found :=
      Except.ok.inj hreply
    unfold Cluster.cache? at hfound
    rw [hstate.caches] at hfound
    exact hfound.symm.trans hx.cache
  · have hlist : c.listOperations x.namespaceName x.key = operations := Except.ok.inj hreply
    exact hlist ▸ hstate.pooled.listed
  · cases hplays with
    | look hbound =>
      have hfound : c.operation? x.namespaceName operation = found := Except.ok.inj hreply
      have hphase : t.requirement.known.phase = .operating ∨
          t.requirement.known.phase = .ready := by
        rcases h.tells.phase_cases with hphase | hphase
        · rw [h.tells.unbound hphase] at hbound
          cases hbound
        · exact hphase
      obtain ⟨prize, op, hop, hwon, hname, -⟩ := h.tells.won hphase
      obtain rfl := Option.some.inj (hbound.symm.trans hname)
      exact ⟨prize, op, hop, hwon, hfound.symm.trans (hc.operation?_eq hop (hwon.isAt hx.orderly))⟩
  · cases hplays with
    | @claim operations op version hlist hunheld hselect hversion =>
      obtain ⟨old, hstored, hsame, hafter⟩ := Cluster.patchOwners_ok hreply
      obtain ⟨rfl, hwon⟩ := h.wins hseen hlist hselect hversion hstored hsame c.nextVersion.1
      exact ⟨old, _, (Cluster.mem_of_operation? hafter).1, hwon, rfl⟩

end Tracks

/-! ### Worlds -/

/-- The contest at any moment. -/
structure Underway (x : Contest) (w : World) : Prop where
  consistent : w.Consistent
  state : x.State w.cluster
  tracks : ∀ t ∈ w.tasks, ∃ uid, x.Tracks w.cluster t uid

namespace Underway

theorem remembers (h : x.Underway w) (ht : t ∈ w.tasks) (henters : x.Enters t.requirement uid) :
    x.Remembers w.cluster t := by
  intro operations hlist op hop
  obtain ⟨hrecalls, hnamespace, -⟩ := h.consistent.seen t ht x.key operations hlist op hop
  rw [Task.namespaceName_eq henters.isAt] at hnamespace
  exact ⟨hrecalls, hnamespace⟩

/-- One reconcile goes on, and the others have seen what they have seen. -/
theorem advance (h : x.Underway w) {before after : List Task} {t' : Task}
    (htasks : w.tasks = before ++ t :: after) (hconsistent : w'.Consistent)
    (hstate : x.State w'.cluster) (hlater : x.Later w.cluster w'.cluster)
    (htasks' : w'.tasks = before ++ t' :: after) (htracks : x.Tracks w'.cluster t' uid) :
    x.Underway w' := by
  refine ⟨hconsistent, hstate, fun u hu => ?_⟩
  rcases World.mem_tasks_of_ne htasks (htasks' ▸ hu) with rfl | hu
  · exact ⟨uid, htracks⟩
  · obtain ⟨uid', hother⟩ := h.tracks u hu
    exact ⟨uid', hother.later hlater⟩

/-- A reconcile that goes on without a call has seen what it has seen. -/
theorem quiet (h : x.Underway w) {before after : List Task} {rest : Plan Action}
    (htasks : w.tasks = before ++ t :: after) {hwithin : rest.Within t.namespaceName}
    (hconsistent : World.Consistent { w with tasks := before ++ t.resume rest hwithin :: after })
    (hgrounds : t.rest.Obeys (Grounds t.occasion t.requirement) t.past →
      rest.Obeys (Grounds t.occasion t.requirement) t.past) :
    x.Underway { w with tasks := before ++ t.resume rest hwithin :: after } := by
  obtain ⟨uid, htracks⟩ := h.tracks t (World.mem_tasks htasks)
  exact h.advance htasks hconsistent h.state (.refl x _) rfl
    { htracks with grounds := hgrounds htracks.grounds }

/-- A call goes well or not. -/
theorem deliver (hx : x.Fair) (h : x.Underway w) {before after : List Task}
    {next : Except Error call.Reply → Plan Action} (fate : Fate)
    (htasks : w.tasks = before ++ t :: after) (hrest : t.rest = .call n call next)
    (hconsistent : World.Consistent
      { cluster := (w.cluster.deliver n w.cluster call fate).2
        former := w.cluster :: w.former
        tasks := before ++
          t.answered hrest (w.cluster.deliver n w.cluster call fate).1 :: after }) :
    x.Underway
      { cluster := (w.cluster.deliver n w.cluster call fate).2
        former := w.cluster :: w.former
        tasks := before ++
          t.answered hrest (w.cluster.deliver n w.cluster call fate).1 :: after } := by
  have ht := World.mem_tasks htasks
  obtain ⟨uid, htracks⟩ := h.tracks t ht
  have hgrounds := htracks.grounds
  rw [hrest] at hgrounds
  have hplays := htracks.plays (h.consistent.move ht hrest) hgrounds.1
  have hseen := h.remembers ht htracks.enters
  have horderly := h.consistent.orderly
  obtain ⟨hstate, hlater⟩ := htracks.serve hx horderly h.state hseen hplays
  obtain rfl : n = x.namespaceName :=
    (Task.namespaceName_of_call hrest).trans (Task.namespaceName_eq htracks.enters.isAt)
  cases fate with
  | served =>
    exact h.advance htasks hconsistent hstate hlater rfl
      (htracks.served hx horderly h.state hseen hplays hrest)
  | lost e =>
    exact h.advance htasks hconsistent h.state (.refl x _) rfl (htracks.failed hrest e)
  | unheard e =>
    exact h.advance htasks hconsistent hstate hlater rfl ((htracks.later hlater).failed hrest e)

/-- Every step of a reconcile keeps what holds of the contest. -/
theorem step (hx : x.Fair) (h : x.Underway w) (hstep : Step rivalry w w')
    (hown : w'.tasks ≠ w.tasks) : x.Underway w' := by
  have hconsistent := h.consistent.step rivalry_faithful hstep
  cases hstep with
  | @start settings occasion r hstart =>
    obtain ⟨hnow, namespaceName, name, hstored⟩ := hstart
    have hr := (Cluster.mem_of_requirement? hstored).1
    obtain ⟨uid, henters, htells⟩ := h.state.stored r hr
    refine ⟨hconsistent, h.state, fun t ht => ?_⟩
    rcases List.mem_cons.1 ht with rfl | ht
    · exact ⟨uid, henters, h.state.same ▸ List.mem_map_of_mem hr, hnow, htells,
        plan_grounds settings occasion r, fun _ hfind => (nomatch hfind),
        fun _ hlist => (nomatch hlist), fun _ _ hlook => (nomatch hlook),
        fun _ _ _ hclaim => (nomatch hclaim)⟩
    · exact h.tracks t ht
  | event htasks hrest =>
    exact h.quiet htasks hconsistent fun hgrounds => by rwa [hrest] at hgrounds
  | measure htasks hrest =>
    exact h.quiet htasks hconsistent fun hgrounds => by rwa [hrest] at hgrounds
  | call fate htasks hrest hview _ =>
    cases hview
    exact h.deliver hx fate htasks hrest hconsistent
  | @stop before after t htasks =>
    have hmem := (World.sublist_tasks htasks).subset
    exact ⟨hconsistent, h.state, fun t' ht' => h.tracks t' (hmem ht')⟩
  | others hothers => exact absurd rfl hown

/-- Whatever the reconciles do, the contest goes on. -/
theorem of_undisturbed (hx : x.Fair) (h : Undisturbed rivalry { cluster := x.cluster } w) :
    x.Underway w := by
  induction h with
  | refl =>
    exact ⟨World.consistent_of_orderly hx.orderly, hx.state, fun _ ht => (nomatch ht)⟩
  | step _ hstep hown ih => exact ih.step hx hstep hown

end Underway

end Contest

end WarmPool
