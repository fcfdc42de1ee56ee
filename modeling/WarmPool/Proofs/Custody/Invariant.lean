import WarmPool.Proofs.Custody.Status

/-!
# The invariant of a requirement

Every step keeps the invariant of a requirement (`Claimant.Custody.step`). The steps that do not
spare it are its own: a status write, whose status answers for what is held
(`Claimant.Custody.patchStatus`), a claim, which is made when nothing is held
(`Claimant.Custody.claim`), and the removal of the finalizer, when nothing is held any more
(`Claimant.Custody.unclaimed_of_removeFinalizer`).
-/

namespace WarmPool

open Reconcile

namespace Claimant

variable {x : Claimant} {c' : Cluster} {w : World} {t t' : Task} {call : Call}
  {next : Except Error call.Reply → Plan Action} {before after : List Task}

/-! ### The other reconciles -/

/-- No other reconcile is of the same requirement. -/
theorem isAt_of_mem_others (h : w.Regular) (htasks : w.tasks = before ++ t :: after)
    (hat : x.isAt t.requirement.metadata = true) (ht' : t' ∈ before ++ after) :
    x.isAt t'.requirement.metadata = false := by
  rw [Bool.eq_false_iff]
  intro hat'
  have hplace : t'.place = t.place :=
    (Metadata.isAt_iff.1 hat').trans (Metadata.isAt_iff.1 hat).symm
  have hperm : (before ++ t :: after).Perm (t :: (before ++ after)) := List.perm_middle
  have hapart := h.apart
  rw [htasks] at hapart
  have hnodup := (hperm.map Task.place).nodup_iff.1 hapart
  exact (List.nodup_cons.1 hnodup).1 (hplace ▸ List.mem_map_of_mem ht')

/-- The requirements after a call have the places and the UIDs of those before. -/
theorem known_of_call (h : w.Regular) (ht : t ∈ w.tasks)
    (hrest : t.rest = .call t.namespaceName call next) (view : Cluster) (fate : Fate) :
    ∀ r' ∈ (w.cluster.deliver t.namespaceName view call fate).2.requirements,
      ∃ r ∈ w.cluster.requirements, r'.metadata.place = r.metadata.place ∧
        r'.metadata.uid = r.metadata.uid := by
  obtain ⟨-, -, namespaceName, name, hat⟩ := h.tasks t ht
  exact fun r' hr' => ((h.revises ht hrest hat view fate).mem h.timely hr').2

/-- A step of a reconcile that spares the requirement keeps its invariant. -/
theorem Custody.advance (hx : x.Custody w) (htasks : w.tasks = before ++ t :: after)
    (hspares : x.Spares w.cluster c') (horderly : c'.Orderly)
    (hknown : ∀ r' ∈ c'.requirements, ∃ r ∈ w.cluster.requirements,
      r'.metadata.place = r.metadata.place ∧ r'.metadata.uid = r.metadata.uid)
    (hrequirement : t'.requirement = t.requirement)
    (hinforms : x.isAt t.requirement.metadata = true → x.Informs c' t') (former : List Cluster) :
    x.Custody { cluster := c', former := former, tasks := before ++ t' :: after } := by
  -- The other reconciles keep what they rely on; the one that went on is given it.
  refine hx.spared hspares horderly hknown (fun u hu hplace => ?_) (fun u hu hplace => ?_)
  · rcases World.mem_tasks_of_ne htasks hu with rfl | hu
    · rw [hrequirement] at hplace ⊢
      exact hx.others t (World.mem_tasks htasks) hplace
    · exact hx.others u hu hplace
  · rcases World.mem_tasks_of_ne htasks hu with rfl | hu
    · exact hinforms (hrequirement ▸ hplace)
    · exact (hx.tasks u hu hplace).spared hspares

/-- A step of the requirement's own reconcile keeps its invariant if it keeps what it says. -/
theorem Custody.own (h : w.Regular) (hx : x.Custody w) (htasks : w.tasks = before ++ t :: after)
    (hat : x.isAt t.requirement.metadata = true) (hrequirement : t'.requirement = t.requirement)
    (hknown : ∀ r' ∈ c'.requirements, ∃ r ∈ w.cluster.requirements,
      r'.metadata.place = r.metadata.place ∧ r'.metadata.uid = r.metadata.uid)
    (hstored : ∀ r, x.stored? c' = some r → r.metadata.uid = some x.uid ∧ r.Sound)
    (hinforms : x.Informs c' t')
    (hguarded : ∀ op ∈ c'.operations, Pool.isClaimedBy x.uid op = true →
      ∃ r, x.stored? c' = some r ∧ x.Guards r op)
    (hsingle : ∀ op ∈ c'.operations, ∀ op' ∈ c'.operations,
      Pool.isClaimedBy x.uid op = true → Pool.isClaimedBy x.uid op' = true → op = op')
    (former : List Cluster) :
    x.Custody { cluster := c', former := former, tasks := before ++ t' :: after } := by
  have hcases (u : Task) (hu : u ∈ before ++ t' :: after) : u = t' ∨ u ∈ before ++ after := by
    rcases List.mem_append.1 hu with hu | hu
    · exact .inr (List.mem_append_left _ hu)
    · exact (List.mem_cons.1 hu).imp_right (List.mem_append_right _)
  refine ⟨fun r' hr' huid => ?_, hstored, fun u hu hplace => ?_, fun u hu hplace => ?_, hguarded,
    hsingle⟩
  · obtain ⟨r, hr, hplace, huidEq⟩ := hknown r' hr'
    unfold isAt
    rw [Metadata.isAt_congr hplace]
    exact hx.known r hr (huidEq ▸ huid)
  · rcases hcases u hu with rfl | hother
    · rw [hrequirement, hat] at hplace
      cases hplace
    · rcases World.mem_tasks_of_ne htasks hu with rfl | hu
      · rw [hrequirement, hat] at hplace
        cases hplace
      · exact hx.others u hu hplace
  · rcases hcases u hu with rfl | hother
    · exact hinforms
    · rw [isAt_of_mem_others h htasks hat hother] at hplace
      cases hplace

/-! ### Status writes -/

/-- A status write of the requirement's own reconcile keeps the invariant. -/
theorem Custody.patchStatus (h : w.Regular) (hx : x.Custody w)
    (htasks : w.tasks = before ++ t :: after) (hat : x.isAt t.requirement.metadata = true)
    {name : String} {s : RequirementStatus} {next : Except Error Unit → Plan Action}
    (hrest : t.rest = .call t.namespaceName (.patchStatus name s) next) (reply : Except Error Unit)
    (former : List Cluster) :
    x.Custody
      { cluster := (w.cluster.patchStatus t.namespaceName name s).2
        former := former
        tasks := before ++ t.answered hrest reply :: after } := by
  have ht := World.mem_tasks htasks
  have hinforms := hx.tasks t ht hat
  obtain ⟨rfl, hs, hfirst, hwrites⟩ := h.timely_of_patchStatus ht hrest
  have hknown := known_of_call h ht hrest w.cluster .served
  have hoperations := Cluster.operations_patchStatus w.cluster t.namespaceName t.requirement.name s
  have hstored : x.stored? (w.cluster.patchStatus t.namespaceName t.requirement.name s).2 =
      (x.stored? w.cluster).map (·.withStatus s) := by
    rw [namespaceName_eq hat, name_eq hat]
    exact Cluster.requirement?_patchStatus h.timely hs
  have htimely (r : Requirement) (hr : x.stored? w.cluster = some r) : r.Timely :=
    h.timely r (Cluster.mem_of_requirement? hr).1
  refine hx.own h htasks hat (Task.answered_requirement hrest reply) hknown
    (fun r' hr' => ?_) (hinforms.written hstored hoperations htimely hs hwrites hrest reply)
    (fun op hop hclaimed => ?_) (fun op hop op' hop' => ?_) former
  · obtain ⟨r, hr, rfl⟩ := Option.map_eq_some_iff.1 (hstored.symm.trans hr')
    exact ⟨(Requirement.withStatus_uid (htimely r hr) hs).trans (hx.stored r hr).1,
      hinforms.sound_withStatus hr (htimely r hr) hs hwrites⟩
  · obtain ⟨r, hr, hguards⟩ := hx.guarded op (hoperations ▸ hop) hclaimed
    exact ⟨r.withStatus s, hstored.trans (congrArg (Option.map _) hr),
      hinforms.guards_withStatus hr (htimely r hr) hs hfirst hwrites hguards⟩
  · exact hx.single op (hoperations ▸ hop) op' (hoperations ▸ hop')

/-! ### Claims -/

/-- Nothing is held when a reconcile is about to claim. -/
theorem Custody.unclaimed_of_claim (h : w.Regular) (hx : x.Custody w) (ht : t ∈ w.tasks)
    (hat : x.isAt t.requirement.metadata = true) {name seen : String}
    {owners : List OwnerReference} {next : Except Error Unit → Plan Action}
    (hrest : t.rest = .call t.namespaceName (.patchOwners name seen owners) next)
    (hadvances : AdvancesFrom t.requirement .cacheChecking) :
    ∀ op ∈ w.cluster.operations, Pool.isClaimedBy x.uid op = false := by
  have hinforms := hx.tasks t ht hat
  obtain ⟨key, uid, operations, op, hlist, -, -, -, huid, hkind⟩ :=
    (h.consistent.move ht hrest).patchOwners_cases
  rcases hkind with ⟨cache, -, -, hpast, hnone, -, -⟩ | ⟨hreleases, -⟩
  · rw [hinforms.uid, Option.some.injEq] at huid
    rw [← huid] at hnone
    refine hinforms.searched hadvances key operations hlist hnone fun a ha => ?_
    rw [hpast] at ha
    rcases List.mem_cons.1 ha with rfl | ha
    · exact fun _ _ _ => Call.noConfusion
    · rw [List.mem_singleton] at ha
      subst ha
      exact fun _ _ _ => Call.noConfusion
  · exact absurd hreleases hadvances.not_releases

/-- The stored requirement answers for the operation that its reconcile claims. -/
theorem Custody.guards_of_replaces (h : w.Regular) (hx : x.Custody w) (ht : t ∈ w.tasks)
    (hat : x.isAt t.requirement.metadata = true) {old new : Operation}
    (hreplaces : t.Replaces old new) (hadvances : AdvancesFrom t.requirement .cacheChecking) :
    ∃ r, x.stored? w.cluster = some r ∧ x.Guards r new := by
  have hinforms := hx.tasks t ht hat
  obtain ⟨hdeleting, hspec, hphase⟩ := hadvances
  cases hreplaces with
  | @claim _ uid version cache operations huid hpast _ hmem _ hnew =>
    -- The key read is the one stored, as no status was written in between.
    have hunwritten : Unwritten t.past := by
      rw [hpast]
      exact (unwritten_nil.cons fun _ _ => Call.noConfusion).cons fun _ _ => Call.noConfusion
    obtain ⟨hfinalizer, hsome⟩ := hinforms.sound (.inl hphase)
    obtain ⟨key, hkey⟩ := Option.isSome_iff_exists.1 (hsome hspec hdeleting)
    obtain ⟨r, hr, hhas⟩ := hinforms.finalizer hdeleting (.inl hfinalizer)
    have hknown := hinforms.known hr hunwritten
    have hsought : soughtKey t.requirement t.requirement.known = key := by
      unfold soughtKey
      rw [hkey]
      rfl
    obtain ⟨-, hnamespace, hlabel⟩ := h.consistent.seen t ht _ operations
      (hpast ▸ List.mem_cons_self) old hmem
    rw [hsought] at hlabel
    rw [hinforms.uid, Option.some.injEq] at huid
    subst huid hnew
    refine ⟨r, hr, hhas, (hinforms.same r hr).1 ▸ hspec, ?_, ⟨key, ?_, hlabel⟩, ?_, ?_⟩
    · rw [hknown, hphase]
      exact RequirementPhase.noConfusion
    · rw [hknown, hkey]
    · exact hnamespace.trans (congrArg some (namespaceName_eq hat))
    · intro o ho hx
      rcases List.mem_append.1 ho with ho | ho
      · exact absurd hx (Metadata.uid_ne_of_mem_withoutOwner ho)
      · rw [List.mem_singleton] at ho
        subst ho
        rfl
  | release hreleases _ _ => exact absurd hreleases.1 (by simp [hdeleting])

/-- A claim keeps the invariant: what it writes is all that is held. -/
theorem Custody.claim (h : w.Regular) (hx : x.Custody w)
    (htasks : w.tasks = before ++ t :: after) (hat : x.isAt t.requirement.metadata = true)
    {name seen : String} {owners : List OwnerReference} {next : Except Error Unit → Plan Action}
    (hrest : t.rest = .call t.namespaceName (.patchOwners name seen owners) next)
    (hadvances : AdvancesFrom t.requirement .cacheChecking) (reply : Except Error Unit)
    (former : List Cluster) :
    x.Custody
      { cluster := (w.cluster.patchOwners t.namespaceName name seen owners).2
        former := former
        tasks := before ++ t.answered hrest reply :: after } := by
  have ht := World.mem_tasks htasks
  have hinforms := hx.tasks t ht hat
  have hunclaimed := hx.unclaimed_of_claim h ht hat hrest hadvances
  have hchanges := h.consistent.call_changes ht hrest w.cluster
    (fun _ _ heq => nomatch heq : (∀ e, Fate.served ≠ .lost e) → _)
  have hrequirements : (w.cluster.patchOwners t.namespaceName name seen owners).2.requirements =
      w.cluster.requirements :=
    @Cluster.requirements_deliver w.cluster t.namespaceName (.patchOwners name seen owners) rfl
      w.cluster .served
  have hstored : x.stored? (w.cluster.patchOwners t.namespaceName name seen owners).2 =
      x.stored? w.cluster := congrArg (List.find? _) hrequirements
  -- Only the operation that was written can be held, and it was not stored like this before.
  have hnew {op : Operation}
      (hop : op ∈ (w.cluster.patchOwners t.namespaceName name seen owners).2.operations)
      (hclaimed : Pool.isClaimedBy x.uid op = true) :
      op ∉ w.cluster.operations ∧ ∃ r, x.stored? w.cluster = some r ∧ x.Guards r op := by
    refine ⟨fun hmem => absurd hclaimed (by simp [hunclaimed op hmem]), ?_⟩
    rcases hchanges.mem_cases hop with hmem | ⟨-, ⟨old, -, -, -, hreplaces⟩ | hmakes⟩
    · exact absurd hclaimed (by simp [hunclaimed op hmem])
    · exact hx.guards_of_replaces h ht hat hreplaces hadvances
    · exact absurd hclaimed (by simp [isClaimedBy_of_makes hmakes])
  refine hx.own h htasks hat (Task.answered_requirement hrest reply)
    (known_of_call h ht hrest w.cluster .served) (fun r hr => hx.stored r (hstored ▸ hr)) ?_
    (fun op hop hclaimed => ?_) (fun op hop op' hop' hclaimed hclaimed' => ?_) former
  · refine ⟨hinforms.uid, hinforms.sound, fun r hr => hinforms.same r (hstored ▸ hr),
      fun hunwritten r hr =>
        hinforms.status (fun a ha => hunwritten a (List.mem_cons_of_mem _ ha)) r (hstored ▸ hr),
      fun hdeleting hfinalizer => ?_,
      fun hreleases => absurd hreleases hadvances.not_releases,
      fun _ _ _ _ _ hunpatched => absurd rfl (hunpatched _ List.mem_cons_self name seen owners),
      fun hreleases => absurd hreleases hadvances.not_releases⟩
    refine hstored ▸ hinforms.finalizer hdeleting (hfinalizer.imp_right fun hmem => ?_)
    rcases List.mem_cons.1 hmem with heq | hmem
    · exact absurd (congrArg Answered.call heq) Call.noConfusion
    · exact hmem
  · obtain ⟨r, hr, hguards⟩ := (hnew hop hclaimed).2
    exact ⟨r, hstored.trans hr, hguards⟩
  · -- Two operations held would both be new, and one at most is.
    rcases hchanges.mem_or_mem_or_eq hop hop' with hmem | hmem | heq
    · exact absurd hmem (hnew hop hclaimed).1
    · exact absurd hmem (hnew hop' hclaimed').1
    · exact heq

/-! ### The end of the finalizer -/

/-- Nothing is held any more when a reconcile is about to take the finalizer away. -/
theorem Custody.unclaimed_of_removeFinalizer (h : w.Regular) (hx : x.Custody w) (ht : t ∈ w.tasks)
    (hat : x.isAt t.requirement.metadata = true) {name finalizer : String}
    {next : Except Error Unit → Plan Action}
    (hrest : t.rest = .call t.namespaceName (.removeFinalizer name finalizer) next) :
    Releases t.requirement ∧
      ∀ op ∈ w.cluster.operations, Pool.isClaimedBy x.uid op = false := by
  have hinforms := hx.tasks t ht hat
  obtain ⟨-, hreleases, hreleased⟩ := (h.consistent.move ht hrest).removeFinalizer_cases
  refine ⟨hreleases, fun op hop => ?_⟩
  rw [Bool.eq_false_iff]
  intro hclaimed
  obtain ⟨r, hr, hguards⟩ := hx.guarded op hop hclaimed
  obtain ⟨key, hkey, -⟩ := hguards.key
  rw [(hinforms.releasing hreleases r hr).2] at hkey
  obtain ⟨uid, operations, huid, hlist, hall⟩ := hreleased key hkey
  rw [hinforms.uid, Option.some.injEq] at huid
  subst huid
  -- It was listed, and it was not handed back, though all that were listed and held were.
  obtain ⟨seen, hseen, -, hheld, hkept⟩ :=
    hinforms.listed hreleases key operations hlist op hop hclaimed
  obtain ⟨version, -, hback⟩ := hall seen hseen hheld
  exact hkept version _ hback

/-- Taking the finalizer away keeps the invariant, since there is nothing left to guard. -/
theorem Custody.removeFinalizer (h : w.Regular) (hx : x.Custody w)
    (htasks : w.tasks = before ++ t :: after) (hat : x.isAt t.requirement.metadata = true)
    {name finalizer : String} {next : Except Error Unit → Plan Action}
    (hrest : t.rest = .call t.namespaceName (.removeFinalizer name finalizer) next)
    (reply : Except Error Unit) (former : List Cluster) :
    x.Custody
      { cluster := w.cluster.removeFinalizer t.namespaceName name finalizer
        former := former
        tasks := before ++ t.answered hrest reply :: after } := by
  have ht := World.mem_tasks htasks
  have hinforms := hx.tasks t ht hat
  obtain ⟨hreleases, hunclaimed⟩ := hx.unclaimed_of_removeFinalizer h ht hat hrest
  have hoperations :=
    Cluster.operations_removeFinalizer w.cluster t.namespaceName name finalizer
  have hname : name = x.name :=
    (h.consistent.move ht hrest).removeFinalizer_cases.1.trans (name_eq hat)
  -- What is left of the requirement differs in its finalizers only.
  have hstored {r' : Requirement}
      (hr' : x.stored? (w.cluster.removeFinalizer t.namespaceName name finalizer) = some r') :
      ∃ r, x.stored? w.cluster = some r ∧ r'.metadata.uid = r.metadata.uid ∧ r'.spec = r.spec ∧
        r'.status = r.status ∧ r'.isDeleting = r.isDeleting := by
    rw [namespaceName_eq hat, hname] at hr'
    obtain ⟨r, hr, rfl | rfl⟩ := Cluster.requirement?_removeFinalizer hr'
    · exact ⟨r', hr, rfl, rfl, rfl, rfl⟩
    · exact ⟨r, hr, rfl, rfl, rfl, rfl⟩
  have hnone {op : Operation}
      (hop : op ∈ (w.cluster.removeFinalizer t.namespaceName name finalizer).operations)
      (hclaimed : Pool.isClaimedBy x.uid op = true) : False :=
    absurd hclaimed (by simp [hunclaimed op (hoperations ▸ hop)])
  refine hx.own h htasks hat (Task.answered_requirement hrest reply)
    (known_of_call h ht hrest w.cluster .served) (fun r' hr' => ?_) ?_
    (fun op hop hclaimed => (hnone hop hclaimed).elim)
    (fun op hop _ _ hclaimed _ => (hnone hop hclaimed).elim) former
  · -- In the phases of a deletion, soundness asks for nothing.
    obtain ⟨r, hr, huid, -, hstatus, -⟩ := hstored hr'
    refine ⟨huid.trans (hx.stored r hr).1, fun hphase => ?_⟩
    rw [Requirement.known_congr hstatus] at hphase
    rcases (hinforms.releasing hreleases r hr).1 with hdeleting | hdeleted
    · simp [hdeleting] at hphase
    · simp [hdeleted] at hphase
  · refine ⟨hinforms.uid, hinforms.sound, fun r' hr' => ?_, fun hunwritten r' hr' => ?_,
      fun hkept => absurd (hreleases.1.symm.trans hkept) (by simp), fun _ r' hr' => ?_,
      fun hadvances => absurd hreleases hadvances.not_releases,
      fun _ _ _ _ op hop hclaimed => (hnone hop hclaimed).elim⟩
    · obtain ⟨r, hr, -, hspec, -, hdeleting⟩ := hstored hr'
      rw [hspec, hdeleting]
      exact hinforms.same r hr
    · obtain ⟨r, hr, -, -, hstatus, -⟩ := hstored hr'
      exact hstatus.trans
        (hinforms.status (fun a ha => hunwritten a (List.mem_cons_of_mem _ ha)) r hr)
    · obtain ⟨r, hr, -, -, hstatus, -⟩ := hstored hr'
      rw [Requirement.known_congr hstatus]
      exact hinforms.releasing hreleases r hr

/-! ### Steps -/

/-- What is relied on does not depend on the rest of the plan. -/
theorem Informs.quiet {c : Cluster} (h : x.Informs c t) {rest : Plan Action}
    (hwithin : rest.Within t.namespaceName) : x.Informs c (t.resume rest hwithin) :=
  ⟨h.uid, h.sound, h.same, h.status, h.finalizer, h.releasing, h.searched, h.listed⟩

/-- A reconcile that goes on without a call keeps the invariant. -/
theorem Custody.quiet (h : w.Regular) (hx : x.Custody w) (htasks : w.tasks = before ++ t :: after)
    {rest : Plan Action} (hwithin : rest.Within t.namespaceName) :
    x.Custody { w with tasks := before ++ t.resume rest hwithin :: after } := by
  have hrequirement : (t.resume rest hwithin).requirement = t.requirement := rfl
  exact hx.advance htasks (.refl x w.cluster) h.consistent.orderly (fun r hr => ⟨r, hr, rfl, rfl⟩)
    hrequirement (fun hat => (hx.tasks t (World.mem_tasks htasks) hat).quiet hwithin) w.former

/-- A reconcile that starts from the stored requirement can rely on it. -/
theorem Custody.start (hx : x.Custody w) {settings : Settings} {occasion : Occasion}
    {r : Requirement} {namespaceName name : String}
    (hstored : w.cluster.requirement? namespaceName name = some r) :
    x.Custody { w with tasks := Task.start settings occasion r :: w.tasks } := by
  obtain ⟨hmem, hat⟩ := Cluster.mem_of_requirement? hstored
  refine ⟨hx.known, hx.stored, fun t ht hplace => ?_, fun t ht hplace => ?_, hx.guarded, hx.single⟩
  · rcases List.mem_cons.1 ht with rfl | ht
    · intro huid
      have hnot : x.isAt r.metadata = false := hplace
      exact absurd (hx.known r hmem huid) (by simp [hnot])
    · exact hx.others t ht hplace
  · rcases List.mem_cons.1 ht with rfl | ht
    · have hr : x.stored? w.cluster = some r := by
        have hsame := (Metadata.isAt_iff.1 hat).symm.trans (Metadata.isAt_iff.1 hplace)
        simp only [Prod.mk.injEq, Option.some.injEq] at hsame
        obtain ⟨rfl, rfl⟩ := hsame
        exact hstored
      have hsame {r' : Requirement} (hr' : x.stored? w.cluster = some r') : r' = r :=
        Option.some.inj (hr'.symm.trans hr)
      obtain ⟨huid, hsound⟩ := hx.stored r hr
      refine ⟨huid, hsound, fun r' hr' => ?_, fun _ r' hr' => ?_, fun _ hfinalizer => ?_,
        fun hreleases r' hr' => ?_, fun _ _ _ hlist => (nomatch hlist),
        fun _ _ _ hlist => (nomatch hlist)⟩
      · rw [hsame hr']
        exact ⟨rfl, id⟩
      · rw [hsame hr']
        rfl
      · rcases hfinalizer with hfinalizer | hadded
        · exact ⟨r, hr, hfinalizer⟩
        · cases hadded
      · rw [hsame hr']
        exact ⟨hreleases.2.2, rfl⟩
    · exact hx.tasks t ht hplace

/-- The calls of the requirement's own reconciles keep the invariant. -/
theorem Custody.own_call (h : w.Regular) (hx : x.Custody w)
    (htasks : w.tasks = before ++ t :: after) (hat : x.isAt t.requirement.metadata = true)
    (hrest : t.rest = .call t.namespaceName call next) (fate : Fate)
    (hroom : (∀ e, fate ≠ .lost e) → w.cluster.HasRoom t.namespaceName call)
    (former : List Cluster) :
    x.Custody
      { cluster := (w.cluster.deliver t.namespaceName w.cluster call fate).2
        former := former
        tasks := before ++ t.answered hrest
          (w.cluster.deliver t.namespaceName w.cluster call fate).1 :: after } := by
  have ht := World.mem_tasks htasks
  have hinforms := hx.tasks t ht hat
  have horderly := (h.consistent.call_changes ht hrest w.cluster hroom).orderly h.consistent.orderly
  have hspared (houtcome : x.Outcome w hrest fate) :=
    hx.advance htasks houtcome.1 horderly (known_of_call h ht hrest w.cluster fate)
      (Task.answered_requirement hrest _) (fun _ => houtcome.2) former
  have hplain (hwrites : call.writesRequirement = false)
      (hlists : ∀ key, call ≠ .listOperations key)
      (hpatches : ∀ name version owners, call ≠ .patchOwners name version owners) :=
    hspared (outcome_plain h ht hinforms hrest hwrites hlists hpatches fate hroom)
  cases call with
  | addFinalizer name finalizer => exact hspared (outcome_addFinalizer h ht hat hinforms hrest fate)
  | listOperations key => exact hspared (outcome_listOperations h hx ht hat hrest fate)
  | getCache name =>
    exact hplain rfl (fun _ => Call.noConfusion) fun _ _ _ => Call.noConfusion
  | createCache cache =>
    exact hplain rfl (fun _ => Call.noConfusion) fun _ _ _ => Call.noConfusion
  | getOperation name =>
    exact hplain rfl (fun _ => Call.noConfusion) fun _ _ _ => Call.noConfusion
  | createOperation op =>
    exact hplain rfl (fun _ => Call.noConfusion) fun _ _ _ => Call.noConfusion
  | patchStatus name status =>
    cases fate with
    | served => exact hx.patchStatus h htasks hat hrest _ former
    | lost e => exact hspared (outcome_lost h hinforms e)
    | unheard e => exact hx.patchStatus h htasks hat hrest _ former
  | removeFinalizer name finalizer =>
    cases fate with
    | served => exact hx.removeFinalizer h htasks hat hrest _ former
    | lost e => exact hspared (outcome_lost h hinforms e)
    | unheard e => exact hx.removeFinalizer h htasks hat hrest _ former
  | patchOwners name seen owners =>
    obtain ⟨_, _, _, _, _, _, _, _, _, hkind⟩ := (h.consistent.move ht hrest).patchOwners_cases
    rcases hkind with ⟨_, hadvances, _⟩ | ⟨hreleases, _⟩
    · cases fate with
      | served => exact hx.claim h htasks hat hrest hadvances _ former
      | lost e => exact hspared (outcome_lost h hinforms e)
      | unheard e => exact hx.claim h htasks hat hrest hadvances _ former
    · exact hspared (outcome_release h hx ht hat hreleases hrest fate)

/-- Every step keeps the invariant. -/
theorem Custody.step {ours : String → Prop} {w' : World} (hours : ours x.uid) (h : w.Regular)
    (hx : x.Custody w) (hstep : Step (custodial ours) w w') : x.Custody w' := by
  have horderly := (h.step hstep).consistent.orderly
  cases hstep with
  | start settings hstart =>
    obtain ⟨-, _, _, hstored, -⟩ := hstart
    exact hx.start hstored
  | event htasks _ => exact hx.quiet h htasks _
  | measure htasks _ => exact hx.quiet h htasks _
  | @call before after t n call next view fate htasks hrest hview hroom =>
    obtain rfl := Task.namespaceName_of_call hrest
    have ht := World.mem_tasks htasks
    have hnow : view = w.cluster := hview
    subst hnow
    cases hat : x.isAt t.requirement.metadata with
    | true => exact hx.own_call h htasks hat hrest fate hroom _
    | false =>
      -- A reconcile of another requirement has another UID, so it spares this one.
      have hspares := spares_of_call h ht hrest hat (hx.others t ht hat) w.cluster fate hroom
      exact hx.advance htasks hspares horderly (known_of_call h ht hrest w.cluster fate)
        (Task.answered_requirement hrest _) (fun hown => absurd hown (by simp [hat])) _
  | @stop before after t htasks =>
    have hmem := (World.sublist_tasks htasks).subset
    exact hx.spared (.refl x w.cluster) horderly (fun r hr => ⟨r, hr, rfl, rfl⟩)
      (fun u hu => hx.others u (hmem hu)) fun u hu => hx.tasks u (hmem hu)
  | others hothers =>
    have hspares := spares_of_others hours hothers
    exact hx.spared hspares horderly (known_of_others hothers) hx.others
      fun t ht hat => (hx.tasks t ht hat).spared hspares

/-! ### Runs -/

/-- The invariant holds before any reconcile of a requirement that holds nothing. -/
theorem custody_of_unclaimed {c : Cluster}
    (hknown : ∀ r ∈ c.requirements, r.metadata.uid = some x.uid → x.isAt r.metadata = true)
    (hstored : ∀ r, x.stored? c = some r → r.metadata.uid = some x.uid ∧ r.Sound)
    (hunclaimed : ∀ op ∈ c.operations, Pool.isClaimedBy x.uid op = false) :
    x.Custody { cluster := c } :=
  ⟨hknown, hstored, fun _ ht => (nomatch ht), fun _ ht => (nomatch ht),
    fun op hop hclaimed => absurd hclaimed (by simp [hunclaimed op hop]),
    fun op hop _ _ hclaimed => absurd hclaimed (by simp [hunclaimed op hop])⟩

theorem Custody.reachable {ours : String → Prop} (hours : ours x.uid) (h : w.Regular)
    (hx : x.Custody w) {w' : World} (hrun : Reachable (custodial ours) w w') :
    w'.Regular ∧ x.Custody w' :=
  hrun.induction_of (P := fun w => w.Regular ∧ x.Custody w) ⟨h, hx⟩ fun _ _ hw hstep =>
    ⟨hw.1.step hstep, hw.2.step hours hw.1 hstep⟩

end Claimant

end WarmPool
