import WarmPool.Proofs.Custody.Claimant

/-!
# Steps that spare a requirement

The writes of others and the calls of reconciles of other requirements spare a requirement
(`Claimant.spares_of_others`, `Claimant.spares_of_call`), and the invariant of the requirement
survives them (`Claimant.Custody.spared`).
-/

namespace WarmPool

open Reconcile

namespace Claimant

variable {x : Claimant} {c c' : Cluster} {w w' : World} {t : Task}

/-! ### The invariant after a change that spares -/

theorem Custody.spared (h : x.Custody w) (hspares : x.Spares w.cluster w'.cluster)
    (horderly : w'.cluster.Orderly)
    (hknown : ∀ r' ∈ w'.cluster.requirements, ∃ r ∈ w.cluster.requirements,
      r'.metadata.place = r.metadata.place ∧ r'.metadata.uid = r.metadata.uid)
    (hothers : ∀ t ∈ w'.tasks, x.isAt t.requirement.metadata = false →
      t.requirement.metadata.uid ≠ some x.uid)
    (htasks : ∀ t ∈ w'.tasks, x.isAt t.requirement.metadata = true → x.Informs w'.cluster t) :
    x.Custody w' := by
  refine ⟨fun r' hr' huid => ?_, fun r' hr' => ?_, hothers, htasks, fun op' hop' hclaimed => ?_,
    fun op₁ hop₁ op₂ hop₂ hclaimed₁ hclaimed₂ => ?_⟩
  · obtain ⟨r, hr, hplace, huidEq⟩ := hknown r' hr'
    unfold isAt
    rw [Metadata.isAt_congr hplace]
    exact h.known r hr (huidEq ▸ huid)
  · obtain ⟨r, hr, htouches⟩ := hspares.touched.1 r' hr'
    obtain ⟨huid, hsound⟩ := h.stored r hr
    exact ⟨htouches.uid.trans huid, htouches.sound hsound⟩
  · obtain ⟨op, hop, hplace, hlabels, howners, hbefore⟩ := hspares.claimed hop' hclaimed
    obtain ⟨r, hr, hguards⟩ := h.guarded op hop hbefore
    obtain ⟨r', hr', htouches, -⟩ := hspares.finalizer hr hguards.finalizer
    exact ⟨r', hr', hguards.spared htouches hplace hlabels howners⟩
  · -- Two operations held come from two that were held, at the places of these.
    obtain ⟨before₁, hmem₁, hplace₁, -, -, hbefore₁⟩ := hspares.claimed hop₁ hclaimed₁
    obtain ⟨before₂, hmem₂, hplace₂, -, -, hbefore₂⟩ := hspares.claimed hop₂ hclaimed₂
    have hsame := h.single before₁ hmem₁ before₂ hmem₂ hbefore₁ hbefore₂
    refine horderly.eq_of_place hop₁ hop₂ ?_
    rw [← hplace₁, ← hplace₂, hsame]

/-! ### Which changes spare -/

/-- A change of operations that adds no claim and no reference spares the requirement. -/
theorem spares_of_changes {write : Operation → Operation → Prop} {make : Operation → Prop}
    (hchanges : c.Changes write make c')
    (hwrite : ∀ old new, write old new → new.metadata.labels = old.metadata.labels ∧
      ∀ o ∈ new.metadata.owners, o.uid = x.uid → o ∈ old.metadata.owners)
    (hmake : ∀ new, make new → Pool.isClaimedBy x.uid new = false)
    (htouched : x.Touched c c') : x.Spares c c' := by
  refine ⟨htouched, fun op hop hclaimed => ?_⟩
  rcases hchanges.mem_cases hop with hop | ⟨-, ⟨old, hold, hplace, hw⟩ | hm⟩
  · exact ⟨op, hop, rfl, rfl, fun _ ho _ => ho⟩
  · obtain ⟨hlabels, howners⟩ := hwrite old op hw
    exact ⟨old, hold, hplace, hlabels, howners⟩
  · exact absurd hclaimed (by simp [hmake op hm])

/-- Edits only touch the requirement, and leave it while it has a finalizer. -/
theorem touched_of_edits {l : List Requirement} (h : Edits c l) :
    x.Touched c { c with requirements := l } := by
  cases h with
  | edit namespaceName name change htouches =>
    have hkept : ∀ r ∈ c.requirements, r.metadata.isAt namespaceName name = true →
        (change r).metadata.isAt namespaceName name = true := fun r hr hat => by
      rwa [Metadata.isAt_congr (htouches r hr hat).1.place]
    by_cases hplace : (namespaceName, name) = (x.namespaceName, x.name)
    · rw [Prod.mk.injEq] at hplace
      obtain ⟨rfl, rfl⟩ := hplace
      have hafter : x.stored? { c with
          requirements := (c.updateRequirement x.namespaceName x.name change).requirements } =
          (x.stored? c).map change := Cluster.requirement?_updateRequirement hkept
      constructor
      · intro r' hr'
        rw [hafter] at hr'
        obtain ⟨r, hr, rfl⟩ := Option.map_eq_some_iff.1 hr'
        obtain ⟨hmem, hat⟩ := Cluster.mem_of_requirement? hr
        exact ⟨r, hr, (htouches r hmem hat).1⟩
      · intro r hr _
        exact ⟨change r, by rw [hafter, hr]; rfl⟩
    · have hafter : x.stored? { c with
          requirements := (c.updateRequirement namespaceName name change).requirements } =
          x.stored? c := Cluster.requirement?_updateRequirement_of_ne hkept hplace
      exact touched_of_eq hafter
  | @remove namespaceName name gone hstored hfree =>
    by_cases hplace : (namespaceName, name) = (x.namespaceName, x.name)
    · rw [Prod.mk.injEq] at hplace
      obtain ⟨rfl, rfl⟩ := hplace
      have hafter : x.stored? { c with
          requirements := (c.removeRequirement x.namespaceName x.name).requirements } = none :=
        Cluster.requirement?_removeRequirement c x.namespaceName x.name
      constructor
      · intro r' hr'
        rw [hafter] at hr'
        cases hr'
      · intro r hr hfinalizer
        -- Only a requirement without finalizers goes.
        have hsame : gone = r := Option.some.inj (hstored.symm.trans hr)
        have hmem := Requirement.hasFinalizer_iff.1 hfinalizer
        rw [← hsame, hfree] at hmem
        cases hmem
    · have hafter : x.stored? { c with
          requirements := (c.removeRequirement namespaceName name).requirements } = x.stored? c :=
        Cluster.requirement?_removeRequirement_of_ne hplace
      exact touched_of_eq hafter

/-- The writes of others spare the requirement. -/
theorem spares_of_others {ours : String → Prop} (hours : ours x.uid)
    (h : Others (custodial ours).license c c') : x.Spares c c' := by
  have hchanges := Cluster.others_changes h
  have hwrite : ∀ old new, (∃ op version, (custodial ours).license.write old op ∧
      new = op.stamped version) → new.metadata.labels = old.metadata.labels ∧
      ∀ o ∈ new.metadata.owners, o.uid = x.uid → o ∈ old.metadata.owners := by
    rintro old new ⟨op, version, ⟨hlabels, howners⟩, rfl⟩
    exact ⟨hlabels, fun o ho huid => howners o ho (huid ▸ hours)⟩
  have hmake : ∀ new, (∃ op version, (custodial ours).license.make op ∧
      new = op.stamped version) → Pool.isClaimedBy x.uid new = false := by
    rintro new ⟨op, version, howners, rfl⟩
    rw [Bool.eq_false_iff]
    intro hclaimed
    obtain ⟨o, ho, -, huid, -⟩ := Pool.isClaimedBy_iff.1 hclaimed
    exact howners o ho (huid ▸ hours)
  have htouched : x.Touched c c' := by
    cases h with
    | requirements hedits => exact touched_of_edits hedits
    | caches _ => exact touched_of_eq rfl
    | write _ _ _ => exact touched_of_eq rfl
    | make _ _ _ => exact touched_of_eq rfl
    | remove _ _ => exact touched_of_eq rfl
    | version _ => exact touched_of_eq rfl
  exact spares_of_changes hchanges hwrite hmake htouched

/-- Others make no requirement, and none gets another place or UID. -/
theorem known_of_others {ours : String → Prop} (h : Others (custodial ours).license c c') :
    ∀ r' ∈ c'.requirements, ∃ r ∈ c.requirements,
      r'.metadata.place = r.metadata.place ∧ r'.metadata.uid = r.metadata.uid := by
  intro r' hr'
  cases h with
  | requirements hedits =>
    cases hedits with
    | edit namespaceName name change htouches =>
      obtain ⟨r, hr, rfl⟩ := mem_updateWhere.1 hr'
      split
      · rename_i hat
        exact ⟨r, hr, (htouches r hr hat).1.place, (htouches r hr hat).1.uid⟩
      · exact ⟨r, hr, rfl, rfl⟩
    | remove _ _ => exact ⟨r', (List.mem_filter.1 hr').1, rfl, rfl⟩
  | caches _ => exact ⟨r', hr', rfl, rfl⟩
  | write _ _ _ => exact ⟨r', hr', rfl, rfl⟩
  | make _ _ _ => exact ⟨r', hr', rfl, rfl⟩
  | remove _ _ => exact ⟨r', hr', rfl, rfl⟩
  | version _ => exact ⟨r', hr', rfl, rfl⟩

/-! ### Calls of other requirements -/

/-- A reconcile of another requirement adds no reference to this one. -/
theorem subset_of_replaces {old new : Operation} (h : t.Replaces old new)
    (huid : t.requirement.metadata.uid ≠ some x.uid) :
    new.metadata.labels = old.metadata.labels ∧
      ∀ o ∈ new.metadata.owners, o.uid = x.uid → o ∈ old.metadata.owners := by
  cases h with
  | @claim _ uid _ _ _ huid' _ _ _ _ hnew =>
    subst hnew
    refine ⟨rfl, fun o ho hx => ?_⟩
    -- The one reference added is to the requirement of the reconcile.
    rcases List.mem_append.1 ho with ho | ho
    · exact (List.mem_filter.1 ho).1
    · rw [List.mem_singleton] at ho
      subst ho
      exact absurd (hx ▸ huid') huid
  | release _ _ hnew =>
    subst hnew
    exact ⟨rfl, fun o ho _ => (List.mem_filter.1 ho).1⟩

/-- An operation made for a requirement is claimed by none. -/
theorem isClaimedBy_of_makes {new : Operation} (h : t.Makes new) (uid : String) :
    Pool.isClaimedBy uid new = false := by
  rw [Bool.eq_false_iff]
  intro hclaimed
  obtain ⟨o, ho, -, -, hcontroller⟩ := Pool.isClaimedBy_iff.1 hclaimed
  obtain ⟨uid', -, howners⟩ := h
  rw [howners, List.mem_singleton] at ho
  subst ho
  cases hcontroller

/-- The calls of a reconcile of another requirement spare this one. -/
theorem spares_of_call (h : w.Regular) (ht : t ∈ w.tasks) {call : Call}
    {next : Except Error call.Reply → Plan Action}
    (hrest : t.rest = .call t.namespaceName call next)
    (hplace : x.isAt t.requirement.metadata = false)
    (huid : t.requirement.metadata.uid ≠ some x.uid) (view : Cluster) (fate : Fate)
    (hroom : (∀ e, fate ≠ .lost e) → w.cluster.HasRoom t.namespaceName call) :
    x.Spares w.cluster (w.cluster.deliver t.namespaceName view call fate).2 := by
  obtain ⟨-, -, namespaceName, name, hat⟩ := h.tasks t ht
  have hne : (namespaceName, name) ≠ (x.namespaceName, x.name) := by
    intro heq
    rw [Prod.mk.injEq] at heq
    obtain ⟨rfl, rfl⟩ := heq
    exact absurd hat (by simpa [isAt] using hplace)
  have hsame := (h.revises ht hrest hat view fate).requirement?_of_ne hne
  exact spares_of_changes (h.consistent.call_changes ht hrest view hroom)
    (fun _ _ hwrite => subset_of_replaces hwrite.2 huid)
    (fun _ hmakes => isClaimedBy_of_makes hmakes _) (touched_of_eq hsame)

end Claimant

end WarmPool
