import WarmPool.Proofs.CrashConsistency
import WarmPool.Proofs.Lifetime
import WarmPool.Proofs.Rounds

/-!
# Successors of the same name

A reconcile addresses its requirement by name. When that one is removed meanwhile and another is
created in its place, every write of the reconcile to the requirement comes upon the successor
(`isolates_iff`). A reconcile that makes any call at all may come to such a write, so a successor is
left alone for certain only where there is nothing to do (`isolated_iff_silent`).
-/

namespace WarmPool

open Reconcile

namespace Reconcile

variable {settings : Settings} {occasion : Occasion} {q : Requirement} {past : List Answered}
  {call : Call} {s : RequirementStatus} {namespaceName : String}

/-! ### Single calls -/

/-- A call leaves status and finalizers of any successor as they are. -/
def Isolates (q : Requirement) (_ : List Answered) (call : Call) : Prop :=
  ∀ (c view : Cluster) (r : Requirement) (namespaceName : String),
    q.metadata.namespaceName = some namespaceName → (∀ x ∈ c.requirements, x.Timely) →
    c.requirement? namespaceName q.name = some r → r.metadata.uid ≠ q.metadata.uid →
    ∃ r', (Cluster.serve namespaceName view c call).2.requirement? namespaceName q.name = some r' ∧
      r'.status = r.status ∧ r'.metadata.finalizers = r.metadata.finalizers

/-- A requirement that is new in the place of another one. -/
def successor (q : Requirement) (uid : String) (finalizers : Option (List String)) :
    Requirement where
  metadata :=
    { name := q.metadata.name
      namespaceName := q.metadata.namespaceName
      uid := some uid
      finalizers := finalizers }
  spec := q.spec

theorem successor_timely (q : Requirement) (uid : String) (finalizers : Option (List String)) :
    (successor q uid finalizers).Timely :=
  ⟨sampleRequirement_timely.1, fun _ h => nomatch h⟩

/-- What an isolating call makes of a successor. -/
theorem Isolates.after (h : Isolates q past call) (hmove : Move occasion q past call)
    (hq : q.Timely) (hnow : occasion.now.Valid)
    (hat : q.metadata.isAt namespaceName q.name = true) (finalizers : Option (List String)) :
    ∃ uid r', (successor q uid finalizers).after call = some r' ∧ r'.status = none ∧
      r'.metadata.finalizers = finalizers := by
  obtain ⟨uid, huid⟩ : ∃ uid, some uid ≠ q.metadata.uid := by
    by_cases hone : some "one" = q.metadata.uid
    · exact ⟨"two", by simp [← hone]⟩
    · exact ⟨"one", hone⟩
  let c : Cluster := { requirements := [successor q uid finalizers] }
  have hstores : c.Stores namespaceName (successor q uid finalizers) :=
    .of_only rfl hat (successor_timely q uid finalizers)
  have hstored := hstores.of_alike (.refl _) hat
  obtain ⟨r', hr', hsame⟩ :=
    h c c _ namespaceName (Metadata.namespaceName_of_isAt hat) hstores.timely hstored huid
  rw [Cluster.requirement?_serve hstores.timely hq.2 hnow hmove hstored] at hr'
  exact ⟨uid, r', hr', hsame⟩

/-- The writes of a reconcile to its requirement are what a successor is not safe from. -/
theorem isolates_iff (hmove : Move occasion q past call) (hq : q.Timely)
    (hnow : occasion.now.Valid) (hat : q.metadata.isAt namespaceName q.name = true) :
    Isolates q past call ↔ call.writesRequirement = false := by
  constructor
  · intro h
    -- For each write there is a successor on which it shows.
    cases call with
    | patchStatus name s =>
      obtain ⟨uid, r', hafter, hstatus, -⟩ := h.after hmove hq hnow hat none
      obtain ⟨-, -, -, hs⟩ := hmove.patchStatus_cases
      obtain rfl := Option.some.inj hafter
      rw [Requirement.withStatus_eq (successor_timely q uid none).1 (hs hq.2 hnow)] at hstatus
      cases hstatus
    | addFinalizer name finalizer =>
      obtain ⟨uid, r', hafter, -, hnone⟩ := h.after hmove hq hnow hat none
      obtain rfl := Option.some.inj hafter
      cases hnone
    | removeFinalizer name finalizer =>
      obtain ⟨uid, r', hafter, -, hkept⟩ := h.after hmove hq hnow hat (some [requirementFinalizer])
      cases hmove
      have hdropped : (successor q uid (some [requirementFinalizer])).giveUp requirementFinalizer =
          some ((successor q uid (some [requirementFinalizer])).dropFinalizer
            requirementFinalizer) := by
        unfold Requirement.giveUp
        simp [successor, Metadata.hasFinalizer, Cluster.isGone, Requirement.isDeleting,
          Requirement.dropFinalizer]
      obtain rfl := Option.some.inj (hdropped.symm.trans hafter)
      simp [successor, Requirement.dropFinalizer] at hkept
    | _ => rfl
  · intro hcall c view r namespaceName _ _ hstored _
    exact ⟨r, (congrArg (List.find? _) (Cluster.requirements_serve hcall)).trans hstored, rfl, rfl⟩

/-! ### Reconciles that do nothing -/

/-- There is nothing for a reconcile to do. -/
inductive Silent (occasion : Occasion) (q : Requirement) : Prop
  /-- The requirement is to go, and was released. -/
  | released (hdeleting : q.isDeleting = true) (hfinalizer : q.hasFinalizer = false)
  /-- The specification is wrong, and the status says so. -/
  | reported (hkept : q.isDeleting = false) {e : Error} (hspec : q.spec.validate = .error e)
      (hsame : q.status =
        some (observed q (q.known.invalidSpec (e.forResource q.name).message occasion.now)))
  /-- The requirement is not to go, though its phase says so. -/
  | finished (hkept : q.isDeleting = false) (hvalid : q.spec.validate = .ok ())
      (hphase : q.known.phase = .deleting ∨ q.known.phase = .deleted)

theorem Silent.plan_eq (h : Silent occasion q) (hplace : q.metadata.namespaceName.isSome) :
    plan settings occasion q = .done (.ok .awaitChange) := by
  cases h with
  | released hdeleting hfinalizer =>
    rw [plan_of_isDeleting hdeleting hplace]
    unfold delete
    rw [hfinalizer]
    rfl
  | @reported hkept e hspec hsame =>
    rw [plan_of_invalid hkept hspec hplace]
    unfold reportInvalid commit
    rw [if_pos hsame]
    rfl
  | finished hkept hvalid hphase =>
    rw [plan_of_advancesFrom ⟨hkept, hvalid, rfl⟩ hplace]
    unfold advance
    rcases hphase with hphase | hphase
    · rw [hphase]
      rfl
    · rw [hphase]
      rfl

/-! ### Reconciles that never write -/

/-- A plan never writes to the requirement, whatever it is answered. -/
def Abstains {α : Type} (p : Plan α) (past : List Answered) : Prop :=
  p.Obeys (fun _ call => call.writesRequirement = false) past

/-- A status is not written only if it is there already. -/
theorem Abstains.commit_bind {α : Type} {f : Bool → Plan α}
    (h : Abstains (commit q s >>= f) past) :
    q.status = some (observed q s) ∧ Abstains (f false) past := by
  unfold commit at h
  by_cases hsame : q.status = some (observed q s)
  · rw [if_pos hsame] at h
    exact ⟨hsame, h⟩
  · rw [if_neg hsame] at h
    exact nomatch h.1

/-- A status that is not written has the phase and the operation of the one that is there. -/
theorem Abstains.commitThen {after : Duration} (h : Abstains (commitThen q s after) past) :
    q.known.phase = s.phase ∧ q.known.operationName = s.operationName := by
  have hknown : q.known = observed q s := Requirement.known_of_status h.commit_bind.1
  rw [hknown]
  exact ⟨rfl, rfl⟩

theorem Abstains.takeIn (h : Abstains (takeIn q q.known occasion.now) past) :
    q.known.phase ≠ .initial := by
  intro hphase
  unfold Reconcile.takeIn at h
  by_cases hfinalizer : q.hasFinalizer = true
  · rw [if_pos hfinalizer] at h
    have hintake : q.known.phase = (intake q occasion.now).phase := (Abstains.commitThen h).1
    rw [hphase, intake_phase] at hintake
    exact coming_ne q (by simp) (by simp) hintake.symm
  · rw [if_neg hfinalizer] at h
    exact nomatch h.1

theorem Abstains.checkCache {uid : String} (huid : q.metadata.uid = some uid)
    (h : Abstains (checkCache settings q q.known occasion.now) past) :
    q.known.phase ≠ .cacheChecking := by
  intro hphase
  unfold Reconcile.checkCache uidOf at h
  rw [huid] at h
  -- The cache is there, and in its pool an operation that the requirement holds already.
  let held : Operation :=
    { warmOperation "" "" with
      metadata :=
        { (warmOperation "" "").metadata with
          ownerReferences := some [holderReference q uid false] } }
  have hheld : Pool.claimedBy? uid [held] = some held :=
    List.find?_cons_of_pos (Pool.isClaimedBy_iff.2 ⟨_, List.mem_singleton_self _, rfl, rfl, rfl⟩)
  have hsearch : Abstains (searchPool settings q { q.known with key := some (soughtKey q q.known) }
      (soughtKey q q.known) uid (warmCache "" "") occasion.now) _ := h.2 (.ok (some _))
  obtain ⟨next, hcall, hrecord, -⟩ := @searchPool_call settings q
    { q.known with key := some (soughtKey q q.known) } occasion.now (soughtKey q q.known) uid
    (warmCache "" "")
  rw [hcall] at hsearch
  have hrecorded := hsearch.2 (.ok [held])
  rw [hrecord _ held hheld] at hrecorded
  have hbinding := (Abstains.commitThen hrecorded).1
  rw [hphase] at hbinding
  cases hbinding

theorem Abstains.follow {uid operation : String} (huid : q.metadata.uid = some uid)
    (h : Abstains (follow settings q q.known operation occasion.now) past) :
    q.known.operationName = none := by
  unfold Reconcile.follow uidOf at h
  rw [huid] at h
  -- The operation is gone, so what is written is bound to nothing.
  exact (Abstains.commitThen (h.2 (.ok none))).2

theorem Abstains.ensureOwned {uid : String} (huid : q.metadata.uid = some uid)
    (h : Abstains (ensureOwned settings q q.known occasion) past) :
    q.known.operationName ≠ none := by
  intro hunbound
  unfold Reconcile.ensureOwned uidOf ownOperation at h
  rw [huid] at h
  -- There is no operation of the key yet, and one is made.
  have hmade := (h.2 (.ok [])).2 (.ok (warmOperation "" ""))
  have hbinding := (Abstains.commitThen hmade).2
  rw [hunbound] at hbinding
  cases hbinding

/-- Nothing may be held, so that a release goes on at once. -/
theorem Abstains.releaseClaims_bind {uid : String} (huid : q.metadata.uid = some uid) {α : Type}
    {f : Unit → Plan α} (h : Abstains (releaseClaims q q.known >>= f) past) :
    ∃ past', Abstains (f ()) past' := by
  unfold releaseClaims uidOf at h
  cases hkey : q.known.key with
  | none =>
    rw [hkey] at h
    exact ⟨past, h⟩
  | some key =>
    rw [hkey, huid] at h
    -- The list of operations of the key is empty.
    exact ⟨_, h.2 (.ok [])⟩

theorem Abstains.delete {uid : String} (huid : q.metadata.uid = some uid)
    (h : Abstains (delete q q.known) past) : q.hasFinalizer = false := by
  by_contra hfinalizer
  have hfinalizer : q.hasFinalizer = true := by simpa using hfinalizer
  unfold Reconcile.delete at h
  rw [if_neg (by simp [hfinalizer])] at h
  by_cases hphase : q.known.phase = .deleting ∨ q.known.phase = .deleted
  · rw [if_pos hphase] at h
    obtain ⟨past', hcommit⟩ := Abstains.releaseClaims_bind huid h
    exact nomatch hcommit.commit_bind.2.1
  · rw [if_neg hphase] at h
    have hknown := Requirement.known_of_status h.commit_bind.1
    rw [hknown] at hphase
    exact hphase (.inl rfl)

theorem Abstains.advance {uid : String} (huid : q.metadata.uid = some uid)
    (h : Abstains (advance settings occasion q q.known) past) :
    q.known.phase = .deleting ∨ q.known.phase = .deleted := by
  unfold Reconcile.advance at h
  split at h
  · rename_i hphase
    exact absurd hphase (Abstains.takeIn h)
  · rename_i hphase
    exact absurd hphase (Abstains.checkCache huid h)
  · rename_i hbound
    rw [Abstains.follow huid h] at hbound
    cases hbound
  · rename_i hphase hunbound
    split at h
    · have hsearches := (Abstains.commitThen h).1
      rw [hphase] at hsearches
      cases hsearches
    · exact absurd hunbound (Abstains.ensureOwned huid h)
  · rename_i hbound
    rw [Abstains.follow huid h] at hbound
    cases hbound
  · rename_i hphase _
    have hlost := (Abstains.commitThen h).1
    rw [hphase] at hlost
    exact absurd hlost.symm (coming_ne q (by simp) (by simp))
  · rename_i hphase
    exact .inl hphase
  · rename_i hphase
    exact .inr hphase

/-- Only where there is nothing to do, a reconcile never writes to the requirement. -/
theorem Abstains.silent {uid : String} (huid : q.metadata.uid = some uid)
    (hplace : q.metadata.namespaceName.isSome) (h : Abstains (plan settings occasion q) []) :
    Silent occasion q := by
  by_cases hdeleting : q.isDeleting = true
  · rw [plan_of_isDeleting hdeleting hplace] at h
    exact .released hdeleting (Abstains.delete huid h)
  · have hkept : q.isDeleting = false := by simpa using hdeleting
    cases hspec : q.spec.validate with
    | ok u =>
      rw [plan_of_advancesFrom ⟨hkept, hspec, rfl⟩ hplace] at h
      exact .finished hkept hspec (Abstains.advance huid h)
    | error e =>
      rw [plan_of_invalid hkept hspec hplace] at h
      exact .reported hkept hspec h.commit_bind.1

end Reconcile

/-! ### Whole reconciles -/

/--
Whatever a reconcile is answered and whenever its requirement is replaced by another of the same
name, it leaves status and finalizers of that one alone exactly if it has nothing to do. Then it
makes no call at all.
-/
theorem isolated_iff_silent {settings : Settings} {occasion : Occasion} {q : Requirement}
    {namespaceName uid : String} (hq : q.Timely) (hnow : occasion.now.Valid)
    (hat : q.metadata.isAt namespaceName q.name = true) (huid : q.metadata.uid = some uid) :
    ((plan settings occasion q).Obeys (Isolates q) [] ↔ Silent occasion q) ∧
      (Silent occasion q → plan settings occasion q = .done (.ok .awaitChange)) := by
  have hplace := Metadata.isSome_namespaceName hat
  refine ⟨⟨fun h => ?_, fun h => ?_⟩, fun h => h.plan_eq hplace⟩
  · have habstains : Abstains (plan settings occasion q) [] :=
      ((plan_obeys settings occasion q).and h).mono fun _ _ _ hcall =>
        (isolates_iff hcall.1 hq hnow hat).1 hcall.2
    exact habstains.silent huid hplace
  · rw [h.plan_eq hplace]
    exact trivial

/-- A reconcile of the sample as it is created may write to a successor. -/
theorem isolated_iff_silent_sample : sampleRequirement.Timely ∧
    sampleRequirement.metadata.isAt "dev" "sample" = true ∧
    ¬ (plan {} sampleOccasion sampleRequirement).Obeys (Isolates sampleRequirement) [] := by
  have hat : sampleRequirement.metadata.isAt "dev" sampleRequirement.name = true := rfl
  have hnow : sampleOccasion.now.Valid := by decide
  refine ⟨sampleRequirement_timely, hat, fun h => ?_⟩
  have hsilent := (@isolated_iff_silent {} _ _ _ "sample" sampleRequirement_timely hnow hat
    rfl).1.1 h
  cases hsilent with
  | released hdeleting _ => cases hdeleting
  | reported _ hspec _ =>
    rw [validate_sampleRequirement] at hspec
    cases hspec
  | finished _ _ hphase => exact absurd hphase (by decide)

/-- The sample while it is released, before its finalizer is taken away. -/
def releasedRequirement : Requirement :=
  { (searchingRequirement none).deletedAt sampleOccasion.now with
    status := some { phase := .deleting } }

theorem releasedRequirement_timely : releasedRequirement.Timely := by
  have htouches := (searchingRequirement none).touches_deletedAt
    (show sampleOccasion.now.Valid by decide)
  exact ⟨(htouches.timely (searchingRequirement_timely none)).1, fun _ h => nomatch h⟩

/--
A requirement was removed while it was released, and one of the same name was created. The reconcile
goes on: it reports the new one as deleted, which nobody asked to be.
-/
theorem successor_reported_deleted : ∃ c r call next r',
    releasedRequirement.Timely ∧
    plan {} sampleOccasion releasedRequirement = .call "dev" call next ∧
    (∀ x ∈ c.requirements, x.Timely) ∧ c.requirement? "dev" releasedRequirement.name = some r ∧
    r.metadata.uid ≠ releasedRequirement.metadata.uid ∧ r.isDeleting = false ∧ r.status = none ∧
    (Cluster.serve "dev" c c call).2.requirement? "dev" releasedRequirement.name = some r' ∧
    r'.known.phase = .deleted := by
  let r := successor releasedRequirement "other" none
  let c : Cluster := { requirements := [r] }
  have hat : releasedRequirement.metadata.isAt "dev" releasedRequirement.name = true := rfl
  have hstores : c.Stores "dev" r := .of_only rfl hat (successor_timely _ _ _)
  have hstored := hstores.of_alike (.refl _) hat
  let s : RequirementStatus := observed releasedRequirement { phase := .deleted }
  have hs : s.Timely := fun _ h => nomatch h
  obtain ⟨next, hplan⟩ : ∃ next, plan {} sampleOccasion releasedRequirement =
      .call "dev" (.patchStatus releasedRequirement.name s) next := by
    rw [plan_of_isDeleting rfl rfl]
    exact ⟨_, rfl⟩
  have hafter :=
    (Cluster.requirement?_patchStatus hstores.timely hs).trans (congrArg (Option.map _) hstored)
  refine ⟨c, r, _, next, _, releasedRequirement_timely, hplan, hstores.timely, hstored, by decide,
    rfl, rfl, hafter, ?_⟩
  rw [Requirement.withStatus_known (successor_timely _ _ _) hs]
  rfl

end WarmPool
