import WarmPool.Proofs.Custody.Spared

/-!
# A requirement's own calls

What a reconcile of the requirement itself knows after each of its calls (`Claimant.Informs`). Most
calls spare the requirement, as others do: reads, a release, and the first finalizer. The lists that
were answered before a claim or the removal of the finalizer say what is held.
-/

namespace WarmPool

open Reconcile

namespace Claimant

variable {x : Claimant} {c : Cluster} {w : World} {t : Task} {call : Call}
  {next : Except Error call.Reply → Plan Action} {hrest : t.rest = .call t.namespaceName call next}

/-! ### An answer -/

/-- What a reconcile relies on after an answer, given what the answer tells. -/
theorem Informs.answered (h : x.Informs c t) (hc : c.Orderly) {reply : Except Error call.Reply}
    (hadded : (⟨call, reply⟩ : Answered) =
      ⟨.addFinalizer t.requirement.name requirementFinalizer, .ok ()⟩ →
        ∃ r, x.stored? c = some r ∧ r.hasFinalizer = true)
    (hsearched : AdvancesFrom t.requirement .cacheChecking → ∀ key operations,
      (⟨call, reply⟩ : Answered) = ⟨.listOperations key, .ok operations⟩ →
        Pool.claimedBy? x.uid operations = none →
        ∀ op ∈ c.operations, Pool.isClaimedBy x.uid op = false)
    (hlisted : Releases t.requirement → ∀ key operations,
      (⟨call, reply⟩ : Answered) = ⟨.listOperations key, .ok operations⟩ → t.past = [] ∧
        ∀ op ∈ c.operations, Pool.isClaimedBy x.uid op = true →
          op ∈ operations ∧ isHeldBy x.uid op = true)
    (hreleased : ∀ name version owners,
      (⟨call, reply⟩ : Answered) = ⟨.patchOwners name version owners, .ok ()⟩ →
        ∀ op ∈ c.operations, Pool.isClaimedBy x.uid op = true → op.name ≠ name) :
    x.Informs c (t.answered hrest reply) := by
  refine ⟨h.uid, h.sound, h.same, fun hfirst => h.status fun a ha =>
    hfirst a (List.mem_cons_of_mem _ ha), fun hdeleting hfinalizer => ?_, h.releasing,
    fun hadvances key operations hlist hnone hfirst => ?_,
    fun hreleases key operations hlist op hop hclaimed => ?_⟩
  · rcases hfinalizer with hfinalizer | hmem
    · exact h.finalizer hdeleting (.inl hfinalizer)
    · rcases List.mem_cons.1 hmem with hnew | hmem
      · exact hadded hnew.symm
      · exact h.finalizer hdeleting (.inr hmem)
  · rcases List.mem_cons.1 hlist with hnew | hlist
    · exact hsearched hadvances key operations hnew.symm hnone
    · exact h.searched hadvances key operations hlist hnone fun a ha =>
        hfirst a (List.mem_cons_of_mem _ ha)
  · rcases List.mem_cons.1 hlist with hnew | hlist
    · -- A release lists first of all, so nothing was handed back before.
      obtain ⟨hpast, hall⟩ := hlisted hreleases key operations hnew.symm
      obtain ⟨hmem, hheld⟩ := hall op hop hclaimed
      refine ⟨op, hmem, rfl, hheld, fun version owners hpatch => ?_⟩
      rcases List.mem_cons.1 hpatch with hpatch | hpatch
      · exact hreleased _ _ _ hpatch.symm op hop hclaimed rfl
      · rw [hpast] at hpatch
        cases hpatch
    · -- It was seen under the name that it has now, and that is not the one just handed back.
      obtain ⟨seen, hseen, hplace, hheld, hkept⟩ :=
        h.listed hreleases key operations hlist op hop hclaimed
      refine ⟨seen, hseen, hplace, hheld, fun version owners hpatch => ?_⟩
      rcases List.mem_cons.1 hpatch with hpatch | hpatch
      · refine hreleased _ _ _ hpatch.symm op hop hclaimed ?_
        obtain ⟨namespaceName, name, hat⟩ := hc.placed op hop
        have hseenAt : seen.metadata.isAt namespaceName name = true := by
          rwa [Metadata.isAt_congr hplace]
        exact (Metadata.anyName_of_isAt hat).trans (Metadata.anyName_of_isAt hseenAt).symm
      · exact hkept version owners hpatch

/-- A failure tells nothing. -/
theorem Informs.failed (h : x.Informs c t) (hc : c.Orderly) (e : Error) :
    x.Informs c (t.answered hrest (.error e)) := by
  refine h.answered hc (fun heq => ?_) (fun _ _ _ heq => ?_) (fun _ _ _ heq => ?_)
    fun _ _ _ heq => ?_
  all_goals
    rw [Answered.mk.injEq] at heq
    obtain ⟨rfl, hreply⟩ := heq
    cases hreply

/-! ### Calls that spare the requirement -/

theorem namespaceName_eq (hat : x.isAt t.requirement.metadata = true) :
    t.namespaceName = x.namespaceName := Task.namespaceName_eq hat

theorem name_eq (hat : x.isAt t.requirement.metadata = true) : t.requirement.name = x.name :=
  Metadata.anyName_of_isAt hat

/-- A release of the requirement adds no reference to it. -/
theorem subset_of_release {old new : Operation} (h : t.Replaces old new)
    (hreleases : Releases t.requirement) :
    new.metadata.labels = old.metadata.labels ∧
      ∀ o ∈ new.metadata.owners, o.uid = x.uid → o ∈ old.metadata.owners := by
  cases h with
  | claim hadvances _ _ _ _ _ _ => exact absurd hreleases hadvances.not_releases
  | release _ _ hnew =>
    subst hnew
    exact ⟨rfl, fun o ho _ => (List.mem_filter.1 ho).1⟩

/-- A call other than a claim spares the requirement if it only touches it. -/
theorem spares_of_own_call (h : w.Regular) (ht : t ∈ w.tasks)
    (hrest : t.rest = .call t.namespaceName call next) (view : Cluster) (fate : Fate)
    (hroom : (∀ e, fate ≠ .lost e) → w.cluster.HasRoom t.namespaceName call)
    (hkind : (∀ name version owners, call ≠ .patchOwners name version owners) ∨
      Releases t.requirement)
    (htouched : x.Touched w.cluster (w.cluster.deliver t.namespaceName view call fate).2) :
    x.Spares w.cluster (w.cluster.deliver t.namespaceName view call fate).2 := by
  refine spares_of_changes (h.consistent.call_changes ht hrest view hroom)
    (fun old new hwrite => ?_) (fun _ hmakes => isClaimedBy_of_makes hmakes _) htouched
  obtain ⟨⟨name, seen, owners, version, hcall, -⟩, hreplaces⟩ := hwrite
  rcases hkind with hkind | hreleases
  · exact absurd hcall (hkind name seen owners)
  · exact subset_of_release hreplaces hreleases

/-- A call that writes no requirement leaves this one as it is. -/
theorem touched_of_call (hcall : call.writesRequirement = false) (view : Cluster) (fate : Fate) :
    x.Touched w.cluster (w.cluster.deliver t.namespaceName view call fate).2 :=
  touched_of_eq (congrArg (List.find? _) (Cluster.requirements_deliver hcall view fate))

/-- What is held is in the list of the operations of the stored key. -/
theorem Custody.mem_listOperations (hx : x.Custody w) {r : Requirement} {key : String}
    {op : Operation} (hr : x.stored? w.cluster = some r) (hkey : r.known.key = some key)
    (hop : op ∈ w.cluster.operations) (hclaimed : Pool.isClaimedBy x.uid op = true) :
    op ∈ w.cluster.listOperations x.namespaceName key := by
  -- The requirement that guards it is the stored one, and its key is the label.
  obtain ⟨r', hr', hguards⟩ := hx.guarded op hop hclaimed
  rw [hr, Option.some.injEq] at hr'
  subst hr'
  obtain ⟨key', hkey', hlabel⟩ := hguards.key
  rw [hkey, Option.some.injEq] at hkey'
  subst hkey'
  refine List.mem_filter.2 ⟨hop, ?_⟩
  rw [hguards.namespaceName, hlabel]
  simp

/-- What a reconcile of the requirement makes of the world by a call of this fate. -/
def Outcome (x : Claimant) (w : World) (hrest : t.rest = .call t.namespaceName call next)
    (fate : Fate) : Prop :=
  x.Spares w.cluster (w.cluster.deliver t.namespaceName w.cluster call fate).2 ∧
    x.Informs (w.cluster.deliver t.namespaceName w.cluster call fate).2
      (t.answered hrest (w.cluster.deliver t.namespaceName w.cluster call fate).1)

/-- Of a call that spares the requirement, only the reply of one that was served is of interest. -/
theorem outcome_of_served {fate : Fate} (hinforms : x.Informs w.cluster t)
    (hspares : x.Spares w.cluster (w.cluster.deliver t.namespaceName w.cluster call fate).2)
    (horderly : (w.cluster.deliver t.namespaceName w.cluster call fate).2.Orderly)
    (hserved : fate = .served →
      x.Informs (Cluster.serve t.namespaceName w.cluster w.cluster call).2
        (t.answered hrest (Cluster.serve t.namespaceName w.cluster w.cluster call).1)) :
    x.Outcome w hrest fate := by
  refine ⟨hspares, ?_⟩
  cases fate with
  | served => exact hserved rfl
  | lost e => exact (hinforms.spared hspares).failed horderly e
  | unheard e => exact (hinforms.spared hspares).failed horderly e

/-- A call that takes no effect changes nothing. -/
theorem outcome_lost (h : w.Regular) (hinforms : x.Informs w.cluster t) (e : Error) :
    x.Outcome w hrest (.lost e) :=
  ⟨.refl x w.cluster, hinforms.failed h.consistent.orderly e⟩

section Own

variable (h : w.Regular) (hx : x.Custody w) (ht : t ∈ w.tasks)
  (hat : x.isAt t.requirement.metadata = true)

include h hx ht hat

/-- After listing, a search knows whether anything is held, and a release all that is. -/
theorem outcome_listOperations {key : String}
    {next : Except Error (List Operation) → Plan Action}
    (hrest : t.rest = .call t.namespaceName (.listOperations key) next) (fate : Fate) :
    x.Outcome w hrest fate := by
  have hinforms := hx.tasks t ht hat
  have hroom : (∀ e, fate ≠ .lost e) →
      w.cluster.HasRoom t.namespaceName (.listOperations key) := fun _ _ heq => nomatch heq
  have hspares := spares_of_own_call h ht hrest w.cluster fate hroom
    (.inl fun _ _ _ => Call.noConfusion) (x.touched_of_call rfl w.cluster fate)
  have horderly := (h.consistent.call_changes ht hrest w.cluster hroom).orderly h.consistent.orderly
  refine outcome_of_served hinforms hspares horderly ?_
  rintro rfl
  have hlist {key' : String} {operations : List Operation}
      (heq : (⟨.listOperations key, .ok (w.cluster.listOperations t.namespaceName key)⟩ :
        Answered) = ⟨.listOperations key', .ok operations⟩) :
      operations = w.cluster.listOperations x.namespaceName key := by
    cases heq
    rw [namespaceName_eq hat]
  have hmove := (h.consistent.move ht hrest).listOperations_cases
  refine hinforms.answered h.consistent.orderly (fun heq => ?_) ?_ ?_ (fun _ _ _ heq => ?_)
  · exact absurd (congrArg Answered.call heq) Call.noConfusion
  · intro hadvances key' operations heq hnone op hop
    obtain ⟨hsought, hunwritten⟩ : key = soughtKey t.requirement t.requirement.known ∧
        Unwritten t.past := by
      rcases hmove with ⟨-, hsought, hunwritten⟩ | hother | ⟨hreleases, -, -⟩
      · exact ⟨hsought, hunwritten⟩
      · exact absurd (hadvances.2.2.symm.trans hother.2.2) (by simp)
      · exact absurd hreleases hadvances.not_releases
    rw [Bool.eq_false_iff]
    intro hclaimed
    -- What is held has the label of the stored key, so it would be in the list.
    obtain ⟨r, hr, hguards⟩ := hx.guarded op hop hclaimed
    obtain ⟨stored, hstored, -⟩ := hguards.key
    have hknown : t.requirement.known = r.known :=
      (Requirement.known_congr (hinforms.status hunwritten r hr)).symm
    have hkey : key = stored := by
      rw [hsought, hknown]
      unfold soughtKey
      rw [hstored]
      rfl
    have hmem := hx.mem_listOperations hr hstored hop hclaimed
    rw [← hkey, ← hlist heq] at hmem
    exact List.find?_eq_none.1 hnone op hmem hclaimed
  · intro hreleases key' operations heq
    -- The key listed by is the one stored, which a release does not change.
    obtain ⟨hpast, hstored⟩ : t.past = [] ∧ t.requirement.known.key = some key := by
      rcases hmove with ⟨hadvances, -, -⟩ | hother | ⟨-, hpast, hkey⟩
      · exact absurd hreleases hadvances.not_releases
      · exact absurd hreleases hother.not_releases
      · exact ⟨hpast, hkey⟩
    refine ⟨hpast, fun op hop hclaimed => ?_⟩
    obtain ⟨r, hr, hguards⟩ := hx.guarded op hop hclaimed
    have hkey : r.known.key = some key :=
      (hinforms.releasing hreleases r hr).2.trans hstored
    rw [hlist heq]
    exact ⟨hx.mem_listOperations hr hkey hop hclaimed,
      isHeldBy_of_isClaimedBy hclaimed hguards.advisory⟩
  · exact absurd (congrArg Answered.call heq) Call.noConfusion

omit hx in
theorem outcome_addFinalizer (hinforms : x.Informs w.cluster t) {name finalizer : String}
    {next : Except Error Unit → Plan Action}
    (hrest : t.rest = .call t.namespaceName (.addFinalizer name finalizer) next) (fate : Fate) :
    x.Outcome w hrest fate := by
  obtain ⟨rfl, rfl⟩ : name = x.name ∧ finalizer = requirementFinalizer := by
    obtain ⟨hname, hfinalizer⟩ := (h.consistent.move ht hrest).addFinalizer_cases
    exact ⟨hname.trans (name_eq hat), hfinalizer⟩
  have hstored : x.stored?
      (Cluster.serve t.namespaceName w.cluster w.cluster
        (.addFinalizer x.name requirementFinalizer)).2 =
      (x.stored? w.cluster).map (·.takeFinalizer requirementFinalizer) := by
    rw [namespaceName_eq hat]
    exact Cluster.requirement?_addFinalizer w.cluster x.namespaceName x.name requirementFinalizer
  have hserved : x.Touched w.cluster (Cluster.serve t.namespaceName w.cluster w.cluster
      (.addFinalizer x.name requirementFinalizer)).2 := by
    refine ⟨fun r' hr' => ?_, fun r hr _ => ⟨_, hstored.trans (congrArg (Option.map _) hr)⟩⟩
    rw [hstored] at hr'
    obtain ⟨r, hr, rfl⟩ := Option.map_eq_some_iff.1 hr'
    exact ⟨r, hr, r.touches_takeFinalizer requirementFinalizer⟩
  -- Lost or not, the call at most adds the finalizer, so the requirement is spared.
  have htouched : x.Touched w.cluster (w.cluster.deliver t.namespaceName w.cluster
      (.addFinalizer x.name requirementFinalizer) fate).2 := by
    cases fate with
    | served => exact hserved
    | lost e => exact touched_of_eq rfl
    | unheard e => exact hserved
  have hroom : (∀ e, fate ≠ .lost e) → w.cluster.HasRoom t.namespaceName
      (.addFinalizer x.name requirementFinalizer) := fun _ _ heq => nomatch heq
  have hspares := spares_of_own_call h ht hrest w.cluster fate hroom
    (.inl fun _ _ _ => Call.noConfusion) htouched
  have horderly := (h.consistent.call_changes ht hrest w.cluster hroom).orderly h.consistent.orderly
  refine outcome_of_served hinforms hspares horderly ?_
  rintro rfl
  refine (hinforms.spared hspares).answered horderly (fun heq => ?_) (fun _ _ _ heq => ?_)
    (fun _ _ _ heq => ?_) (fun _ _ _ heq => ?_)
  · -- The reply is a success only if the requirement is there.
    have hreply : (w.cluster.addFinalizer x.namespaceName x.name requirementFinalizer).1 =
        .ok () := by
      rw [Answered.mk.injEq] at heq
      rw [← namespaceName_eq hat]
      exact eq_of_heq heq.2
    cases hfound : x.stored? w.cluster with
    | none =>
      have hnone : w.cluster.requirement? x.namespaceName x.name = none := hfound
      rw [Cluster.addFinalizer_eq, hnone] at hreply
      cases hreply
    | some r =>
      exact ⟨_, hstored.trans (congrArg (Option.map _) hfound), r.hasFinalizer_takeFinalizer⟩
  · exact absurd (congrArg Answered.call heq) Call.noConfusion
  · exact absurd (congrArg Answered.call heq) Call.noConfusion
  · exact absurd (congrArg Answered.call heq) Call.noConfusion

omit hx hat in
/-- Calls that neither list, write requirements nor replace owners tell nothing. -/
theorem outcome_plain (hinforms : x.Informs w.cluster t)
    (hrest : t.rest = .call t.namespaceName call next)
    (hwrites : call.writesRequirement = false)
    (hlists : ∀ key, call ≠ .listOperations key)
    (hpatches : ∀ name version owners, call ≠ .patchOwners name version owners) (fate : Fate)
    (hroom : (∀ e, fate ≠ .lost e) → w.cluster.HasRoom t.namespaceName call) :
    x.Outcome w hrest fate := by
  have hspares := spares_of_own_call h ht hrest w.cluster fate hroom (.inl hpatches)
    (x.touched_of_call hwrites w.cluster fate)
  have horderly := (h.consistent.call_changes ht hrest w.cluster hroom).orderly h.consistent.orderly
  refine outcome_of_served hinforms hspares horderly ?_
  rintro rfl
  refine (hinforms.spared hspares).answered horderly (fun heq => ?_) (fun _ key _ heq => ?_)
    (fun _ key _ heq => ?_) (fun _ _ _ heq => ?_)
  · rw [Answered.mk.injEq] at heq
    rw [heq.1] at hwrites
    cases hwrites
  · exact absurd (congrArg Answered.call heq) (hlists key)
  · exact absurd (congrArg Answered.call heq) (hlists key)
  · exact absurd (congrArg Answered.call heq) (hpatches _ _ _)

/-- Handing an operation back: what is still held afterwards has another name. -/
theorem outcome_release (hreleases : Releases t.requirement) {name seen : String}
    {owners : List OwnerReference} {next : Except Error Unit → Plan Action}
    (hrest : t.rest = .call t.namespaceName (.patchOwners name seen owners) next) (fate : Fate) :
    x.Outcome w hrest fate := by
  have hinforms := hx.tasks t ht hat
  have hroom : (∀ e, fate ≠ .lost e) → w.cluster.HasRoom t.namespaceName
      (.patchOwners name seen owners) := fun _ _ heq => nomatch heq
  have hspares := spares_of_own_call h ht hrest w.cluster fate hroom (.inr hreleases)
    (x.touched_of_call rfl w.cluster fate)
  have horderly := (h.consistent.call_changes ht hrest w.cluster hroom).orderly h.consistent.orderly
  refine outcome_of_served hinforms hspares horderly ?_
  rintro rfl
  refine (hinforms.spared hspares).answered horderly (fun heq => ?_) (fun _ _ _ heq => ?_)
    (fun _ _ _ heq => ?_) fun name' version' owners' heq op hop hclaimed hname => ?_
  · exact absurd (congrArg Answered.call heq) Call.noConfusion
  · exact absurd (congrArg Answered.call heq) Call.noConfusion
  · exact absurd (congrArg Answered.call heq) Call.noConfusion
  · have hsame : name' = name := by
      have hcall := congrArg Answered.call heq
      cases hcall
      rfl
    have hreply : (w.cluster.patchOwners t.namespaceName name seen owners).1 = .ok () := by
      rw [Answered.mk.injEq] at heq
      obtain ⟨hcall, hreply⟩ := heq
      cases hcall
      exact eq_of_heq hreply
    obtain ⟨old, hold, -, hnew⟩ := Cluster.patchOwners_ok hreply
    -- The operation still held is the one of the name, which has no reference any more.
    obtain ⟨before, hbefore, hplace, -, -, hclaimedBefore⟩ := hspares.claimed hop hclaimed
    obtain ⟨r, hr, hguards⟩ := hx.guarded before hbefore hclaimedBefore
    obtain ⟨namespaceName, opName, hopAt⟩ := horderly.placed op hop
    have hopName : op.name = opName := Metadata.anyName_of_isAt hopAt
    have hnamespace : namespaceName = x.namespaceName := by
      have hsameNamespace : before.metadata.namespaceName = op.metadata.namespaceName :=
        congrArg Prod.fst hplace
      rw [hguards.namespaceName, Metadata.namespaceName_of_isAt hopAt] at hsameNamespace
      exact (Option.some.inj hsameNamespace).symm
    rw [hnamespace, ← hopName, hname, hsame, ← namespaceName_eq hat] at hopAt
    have hopEq := (horderly.operation?_eq hop hopAt).symm.trans hnew
    rw [Option.some.injEq] at hopEq
    obtain ⟨uid, huid, howners⟩ : ∃ uid, t.requirement.metadata.uid = some uid ∧
        ∃ m : Metadata, owners = m.withoutOwner uid := by
      obtain ⟨_, uid, _, seenOp, _, _, _, _, huid, hkind⟩ :=
        (h.consistent.move ht hrest).patchOwners_cases
      rcases hkind with ⟨_, hadvances, _⟩ | ⟨_, howners⟩
      · exact absurd hreleases hadvances.not_releases
      · exact ⟨uid, huid, seenOp.metadata, howners⟩
    obtain ⟨m, rfl⟩ := howners
    obtain ⟨o, ho, -, houid, -⟩ := Pool.isClaimedBy_iff.1 hclaimed
    rw [hopEq] at ho
    rw [hinforms.uid, Option.some.injEq] at huid
    exact Metadata.uid_ne_of_mem_withoutOwner ho (houid.trans huid)

end Own

end Claimant

end WarmPool
