import WarmPool.Proofs.History

/-!
# What is shown of a claim

The condition that an operation was acquired is said to hold when one is bound, and not to hold when
a search of the pool comes to nothing. When the operation is lost, the requirement is unbound and
nothing is said of the claim. So while the specification is not edited, the condition holds only of
a requirement that is bound to the operation named there, or of one that lost it and is yet to
search again (`names_acquired_iff`); and the latter occurs (`acquired_without_operation`).
-/

namespace WarmPool

open Reconcile

namespace RequirementStatus

/-- The requirement is bound to the operation that its condition names as acquired. -/
def NamesAcquired (s : RequirementStatus) : Prop :=
  ∃ operation key entry, s.operationName = some operation ∧ s.key = some key ∧
    Conditions.find? s.conditions acquiredType = some entry ∧
    entry.message = "acquired " ++ operation ++ " from " ++ Cache.nameForKey key

/-- How an operation may be shown as acquired. -/
inductive ShowsAcquired (s : RequirementStatus) : Prop
  | leaving (hphase : s.phase = .deleting ∨ s.phase = .deleted)
  | bound (hphase : s.phase = .operating ∨ s.phase = .ready) (hnames : s.NamesAcquired)
  | lost (hphase : s.phase = .cacheChecking) (hunbound : s.operationName = none)
      (hlost : s.Shows readyType .false "OperationLost")

/-- What holds of a status that goes with this specification. -/
structure Acquires (spec : RequirementSpec) (s : RequirementStatus) : Prop where
  searches : s.phase = .cacheChecking → spec.enableCache = true
  shown : Conditions.holds s.conditions acquiredType = true →
    spec.enableCache = true ∧ s.ShowsAcquired

variable {s s' : RequirementStatus} {spec : RequirementSpec}

theorem holds_congr {type : String}
    (h : Conditions.find? s'.conditions type = Conditions.find? s.conditions type) :
    Conditions.holds s'.conditions type = Conditions.holds s.conditions type := by
  unfold Conditions.holds
  rw [h]

theorem NamesAcquired.congr (h : s.NamesAcquired)
    (hoperation : s'.operationName = s.operationName)
    (hkey : ∀ key, s.key = some key → s'.key = some key)
    (hfound : Conditions.find? s'.conditions acquiredType =
      Conditions.find? s.conditions acquiredType) : s'.NamesAcquired := by
  obtain ⟨operation, key, entry, hnamed, hknown, hentry, hmessage⟩ := h
  exact ⟨operation, key, entry, hoperation.trans hnamed, hkey key hknown, hfound.trans hentry,
    hmessage⟩

theorem ShowsAcquired.congr (h : s.ShowsAcquired) (hphase : s'.phase = s.phase)
    (hoperation : s'.operationName = s.operationName)
    (hkey : ∀ key, s.key = some key → s'.key = some key)
    (hacquired : Conditions.find? s'.conditions acquiredType =
      Conditions.find? s.conditions acquiredType)
    (hready : Conditions.find? s'.conditions readyType = Conditions.find? s.conditions readyType) :
    s'.ShowsAcquired := by
  cases h with
  | leaving h => exact .leaving (hphase ▸ h)
  | bound h hnames => exact .bound (hphase ▸ h) (hnames.congr hoperation hkey hacquired)
  | lost h hunbound hlost =>
    obtain ⟨entry, hentry, hsays⟩ := hlost
    exact .lost (hphase.trans h) (hoperation.trans hunbound) ⟨entry, hready.trans hentry, hsays⟩

/-- Bound to an operation, a status that shows one as acquired names it. -/
theorem ShowsAcquired.names (h : s.ShowsAcquired)
    (hphase : s.phase = .operating ∨ s.phase = .ready) : s.NamesAcquired := by
  cases h with
  | leaving hleaving =>
    rcases hphase with hphase | hphase
    all_goals simp [hphase] at hleaving
  | bound _ hnames => exact hnames
  | lost hsearches _ _ => simp [hsearches] at hphase

theorem ShowsAcquired.not_initial (h : s.ShowsAcquired) : s.phase ≠ .initial := by
  intro hphase
  cases h with
  | leaving h => simp [hphase] at h
  | bound h _ => simp [hphase] at h
  | lost h _ _ => simp [hphase] at h

/-- Where nothing is said to be acquired, there is nothing to show. -/
theorem acquires_of_not_holds (hsearches : s.phase = .cacheChecking → spec.enableCache = true)
    (hholds : Conditions.holds s.conditions acquiredType = false) : s.Acquires spec :=
  ⟨hsearches, fun htrue => absurd htrue (by simp [hholds])⟩

/-- What is shown in a phase is shown still in the next one, with the same operation. -/
theorem Acquires.follow (h : s.Acquires spec) (hphase : s.phase = .operating ∨ s.phase = .ready)
    (hphase' : s'.phase = .operating ∨ s'.phase = .ready)
    (hoperation : s'.operationName = s.operationName) (hkey : s'.key = s.key)
    (hfound : Conditions.find? s'.conditions acquiredType =
      Conditions.find? s.conditions acquiredType) : s'.Acquires spec := by
  refine ⟨fun hsearches => ?_, fun hholds => ?_⟩
  · simp [hsearches] at hphase'
  · rw [holds_congr hfound] at hholds
    obtain ⟨hcache, hshown⟩ := h.shown hholds
    exact ⟨hcache, .bound hphase'
      ((hshown.names hphase).congr hoperation (fun _ => hkey.trans) hfound)⟩

end RequirementStatus

open RequirementStatus

/-! ### What is reported -/

namespace Reconcile

variable {occasion : Occasion} {q : Requirement} {past : List Answered} {s : RequirementStatus}

/-- A requirement that is to search a pool next is one with caching. -/
theorem enableCache_of_searches
    (h : (if q.spec.enableCache then RequirementPhase.cacheChecking else .operating) =
      .cacheChecking) : q.spec.enableCache = true := by
  by_contra hplain
  rw [if_neg hplain] at h
  cases h

/-- Taking a requirement in says nothing of a claim. -/
theorem find?_intake (q : Requirement) (now : Timestamp) :
    Conditions.find? (intake q now).conditions acquiredType =
      Conditions.find? q.known.conditions acquiredType := by
  have htaken : Conditions.find? (q.known.taken q.spec.template.key now).conditions acquiredType =
      Conditions.find? q.known.conditions acquiredType :=
    find?_withCondition _ (by decide) _ _ _ _
  unfold intake
  split
  · exact (find?_withCondition _ (by decide) _ _ _ _).trans htaken
  · exact htaken

/-- A report shows a claim as it is if the status on which it builds does. -/
theorem Reports.acquires (h : Reports occasion q past s) (hq : q.known.Acquires q.spec) :
    s.Acquires q.spec := by
  have hfollowed (h : AdvancesFrom q .operating ∨ AdvancesFrom q .ready) :
      q.known.phase = .operating ∨ q.known.phase = .ready :=
    h.imp (fun h => h.2.2) fun h => h.2.2
  have hsearches (h : AdvancesFrom q .cacheChecking) : q.spec.enableCache = true :=
    hq.searches h.2.2
  cases h with
  | deleting _ _ =>
    exact ⟨RequirementPhase.noConfusion, fun h => ⟨(hq.shown h).1, .leaving (.inl rfl)⟩⟩
  | deleted _ =>
    exact ⟨RequirementPhase.noConfusion, fun h => ⟨(hq.shown h).1, .leaving (.inr rfl)⟩⟩
  | invalid _ _ message =>
    have hfound : Conditions.find? (q.known.invalidSpec message occasion.now).conditions
        acquiredType = Conditions.find? q.known.conditions acquiredType :=
      find?_withCondition _ (by decide) _ _ _ _
    refine ⟨hq.searches, fun hholds => ?_⟩
    rw [holds_congr hfound] at hholds
    obtain ⟨hcache, hshown⟩ := hq.shown hholds
    exact ⟨hcache, hshown.congr rfl rfl (fun _ => id) hfound
      (find?_withCondition _ (by decide) _ _ _ _)⟩
  | taken h =>
    -- Nothing is shown as acquired before the requirement is taken in, nor by that.
    have hbefore : Conditions.holds q.known.conditions acquiredType = false := by
      rw [Bool.eq_false_iff]
      intro hholds
      exact (hq.shown hholds).2.not_initial h.2.2
    refine acquires_of_not_holds (fun hphase => ?_) ((holds_congr (find?_intake q _)).trans hbefore)
    rw [intake_phase] at hphase
    exact enableCache_of_searches hphase
  | made h _ | waiting h _ _ _ =>
    exact acquires_of_not_holds (fun _ => hsearches h)
      (shows_withCondition _ _ _ _ _ _).not_holds
  | @bound h uid cache operations op _ _ =>
    obtain ⟨entry, hentry, -, -, hmessage⟩ :=
      Conditions.exists_find?_set (searching q occasion.now).conditions
        ⟨acquiredType, .true, "CacheHit",
          "acquired " ++ op.name ++ " from " ++ Cache.nameForKey (soughtKey q q.known),
          occasion.now⟩
    have hnames : (binding q op.name occasion.now).NamesAcquired :=
      ⟨op.name, soughtKey q q.known, entry, rfl, rfl, hentry, hmessage⟩
    exact ⟨RequirementPhase.noConfusion, fun _ => ⟨hsearches h, .bound (.inl rfl) hnames⟩⟩
  | owned _ _ _ _ =>
    exact acquires_of_not_holds RequirementPhase.noConfusion
      (shows_withCondition _ _ _ _ _ _).not_holds
  | unbound h hunbound hcache =>
    refine acquires_of_not_holds (fun _ => hcache) ?_
    rw [Bool.eq_false_iff]
    intro hholds
    obtain ⟨operation, -, -, hnamed, -⟩ := (hq.shown hholds).2.names (.inl h.2.2)
    rw [hunbound] at hnamed
    cases hnamed
  | lost h _ message =>
    have hfound : Conditions.find? (loss q message occasion.now).conditions acquiredType =
        Conditions.find? q.known.conditions acquiredType :=
      find?_withCondition _ (by decide) _ _ _ _
    -- What was acquired is shown still; only the phase, the operation and readiness change.
    refine ⟨enableCache_of_searches, fun hholds => ?_⟩
    rw [holds_congr hfound] at hholds
    obtain ⟨hcache, -⟩ := hq.shown hholds
    exact ⟨hcache, .lost (if_pos hcache) rfl (shows_withCondition q.known _ _ _ message _)⟩
  | @ready h operation op _ _ =>
    exact hq.follow (hfollowed h) (.inr rfl) rfl rfl (find?_withCondition _ (by decide) _ _ _ _)
  | @notReady h operation op _ _ =>
    exact hq.follow (hfollowed h) (.inl rfl) rfl rfl (find?_withCondition _ (by decide) _ _ _ _)

end Reconcile

/-! ### What is stored -/

namespace Lifetime

variable {r₀ r : Requirement} {l : Lifetime} {former : List Lifetime}

/-- What is stored shows a claim as it is, while nobody edits the specification. -/
theorem Path.acquires (h : Path (created r₀) former l) (hnew : r₀.status = none)
    (htimely : r₀.Timely) (hspec : ∀ r, Stored (l :: former) r → r.spec = r₀.spec)
    (hstored : l.stored = some r) : r.known.Acquires r₀.spec := by
  -- By induction on the path; a reconcile was given a specification that was stored on the way.
  induction h generalizing r with
  | refl =>
    cases hstored
    rw [Requirement.known_of_new hnew]
    exact acquires_of_not_holds RequirementPhase.noConfusion rfl
  | @step former l l' hpath hstep ih =>
    have hbefore : ∀ r, Stored (l :: former) r → r.spec = r₀.spec :=
      fun r hr => hspec r (hr.cons l')
    have hproper := ((proper_created hnew htimely).runs hpath.runs).1
    obtain ⟨q, hq, hbecomes⟩ := hproper.becomes hstep hstored
    have hacquires := ih hbefore hq
    cases hbecomes with
    | edited hedits => rwa [hedits.known]
    | @reported t s htask hcurrent hreports hknown =>
      have hgiven := hbefore _ ((hpath.given rfl htask).cons l)
      rw [hcurrent.known, ← hgiven] at hacquires
      have hreported := hreports.acquires hacquires
      rw [hknown, ← hgiven]
      refine ⟨hreported.searches, fun hholds => ?_⟩
      obtain ⟨hcache, hshown⟩ := hreported.shown hholds
      refine ⟨hcache, hshown.congr rfl rfl (fun key hkey => ?_) rfl rfl⟩
      -- Laid over what is stored, the report keeps the key that it has.
      rw [laidOver_key]
      exact (congrArg (Option.or · _) hkey).trans Option.some_or

/-- The sample acquires the operation of a stocked pool. -/
theorem sample_acquired : ∃ r, Unedited (created sampleRequirement) { stored := some r } ∧
    sampleRequirement.Alike r ∧ r.known.phase = .operating ∧
    r.known.operationName = some "warm" ∧
    Conditions.holds r.known.conditions acquiredType = true := by
  obtain ⟨r, hlife, halike, hsearches, hkey⟩ := sample_taken
  have hnow : sampleOccasion.now.Valid := by decide
  have hsought : soughtKey r r.known = sampleRequirement.spec.template.key := by
    unfold soughtKey
    rw [hkey]
    rfl
  -- The key is a digest, which nothing below needs to know.
  generalize sampleRequirement.spec.template.key = key at hsought
  subst hsought
  let c := Cluster.stocked "dev" (soughtKey r r.known) r
  have hstocked : c.Stocked "dev" (soughtKey r r.known) := Cluster.stocked_isStocked
  have hat : r.metadata.isAt "dev" "sample" = true := halike.isAt rfl
  have hstores : c.Stores "dev" r := .of_only rfl hat (halike.timely sampleRequirement_timely)
  have hunheld : Pool.claimedBy? "sample" (c.listOperations "dev" (soughtKey r r.known)) =
      none := by
    rw [hstocked.listOperations]
    rfl
  have hselect : Pool.select? (warmCache "dev" (soughtKey r r.known))
      (c.listOperations "dev" (soughtKey r r.known)) =
        some (warmOperation "dev" (soughtKey r r.known)) := by
    rw [hstocked.listOperations]
    rfl
  obtain ⟨c', r', hperforms, hreported⟩ := @plan_performs_claiming {} _ _ _ c r _ hstores hnow
    ⟨halike.deleting, halike.spec ▸ validate_sampleRequirement, hsearches⟩ halike.uid _
    hstocked.cache? hunheld hselect _ rfl (Cluster.patchOwners_stored hstocked.operation? rfl)
  have hafter := unedited_of_reported hstores halike.deleting hnow hperforms hreported
  refine ⟨r', hlife.trans hafter, halike.trans hreported.alike, ?_⟩
  rw [hreported.known]
  exact ⟨rfl, rfl, Conditions.holds_set_self _ _⟩

end Lifetime

/-! ### Whose operation is named -/

/--
Whatever the reconciles of a requirement are answered, as long as nobody edits its specification and
it is not leaving: an operation that is shown as acquired is the one to which the requirement is
bound, unless it is searching. Then it is bound to nothing, and its operation is shown as lost.
-/
theorem names_acquired_iff {r₀ : Requirement} (hnew : r₀.status = none) (htimely : r₀.Timely)
    {l : Lifetime} (h : Lifetime.Unedited (.created r₀) l) {r : Requirement}
    (hstored : l.stored = some r) (hdeleting : r.known.phase ≠ .deleting)
    (hdeleted : r.known.phase ≠ .deleted)
    (hacquired : Conditions.holds r.known.conditions acquiredType = true) :
    (r.known.NamesAcquired ↔ r.known.phase ≠ .cacheChecking) ∧
      (r.known.phase = .cacheChecking → r.known.operationName = none ∧
        r.known.Shows readyType .false "OperationLost") := by
  obtain ⟨former, hpath, hkept⟩ := h.exists_path
  have hspec (r : Requirement) (hr : Lifetime.Stored (l :: former) r) : r.spec = r₀.spec := by
    obtain ⟨r', hr', hsame⟩ := hkept r hr
    cases hr'
    exact hsame
  obtain ⟨-, hshown⟩ := (hpath.acquires hnew htimely hspec hstored).shown hacquired
  cases hshown with
  | leaving hleaving => exact absurd hleaving (not_or.2 ⟨hdeleting, hdeleted⟩)
  | bound hphase hnames =>
    have hnot : r.known.phase ≠ .cacheChecking := by
      intro hsearches
      simp [hsearches] at hphase
    exact ⟨⟨fun _ => hnot, fun _ => hnames⟩, fun hsearches => absurd hsearches hnot⟩
  | lost hsearches hunbound hlost =>
    refine ⟨⟨?_, fun hnot => absurd hsearches hnot⟩, fun _ => ⟨hunbound, hlost⟩⟩
    rintro ⟨operation, key, entry, hoperation, -⟩
    rw [hunbound] at hoperation
    cases hoperation

/-- The sample is bound to the operation that it acquired. -/
theorem names_acquired_iff_sample : ∃ r, sampleRequirement.status = none ∧
    Lifetime.Unedited (.created sampleRequirement) { stored := some r } ∧
    r.known.phase = .operating ∧
    Conditions.holds r.known.conditions acquiredType = true ∧ r.known.NamesAcquired := by
  obtain ⟨r, hlife, -, hoperates, -, hacquired⟩ := Lifetime.sample_acquired
  have hother {phase : RequirementPhase} (hne : .operating ≠ phase) : r.known.phase ≠ phase :=
    hoperates ▸ hne
  have hnames := names_acquired_iff rfl sampleRequirement_timely hlife rfl (hother (by simp))
    (hother (by simp)) hacquired
  exact ⟨r, rfl, hlife, hoperates, hacquired, hnames.1.2 (hother (by simp))⟩

/-- The operation that the sample acquired is deleted: it is shown as acquired still. -/
theorem acquired_without_operation : ∃ r, sampleRequirement.status = none ∧
    sampleRequirement.Timely ∧
    Lifetime.Unedited (.created sampleRequirement) { stored := some r } ∧
    r.known.phase = .cacheChecking ∧
    Conditions.holds r.known.conditions acquiredType = true ∧ r.known.operationName = none := by
  obtain ⟨q, hlife, halike, hoperates, hbound, hacquired⟩ := Lifetime.sample_acquired
  have hnow : sampleOccasion.now.Valid := by decide
  have hat : q.metadata.isAt "dev" "sample" = true := halike.isAt rfl
  have hstores : Cluster.Stores { requirements := [q] } "dev" q :=
    .of_only rfl hat (halike.timely sampleRequirement_timely)
  obtain ⟨message, c', r, hperforms, hreported⟩ := @plan_performs_lost {} _ _ _ _ _ q hstores hnow
    (.inl ⟨halike.deleting, halike.spec ▸ validate_sampleRequirement, hoperates⟩) halike.uid
    hbound fun _ hop => nomatch hop
  have hafter := Lifetime.unedited_of_reported hstores halike.deleting hnow hperforms hreported
  refine ⟨r, rfl, sampleRequirement_timely, hlife.trans hafter, ?_⟩
  rw [hreported.known]
  refine ⟨?_, ?_, rfl⟩
  · show (loss q message sampleOccasion.now).phase = .cacheChecking
    rw [loss_phase, halike.spec]
    rfl
  · exact (Conditions.holds_set_of_ne _ (show _ ≠ readyType by decide)).trans hacquired

end WarmPool
