import WarmPool.Proofs.Readiness

/-!
# What is shown of the specification

The condition that a requirement was initialized is said to hold when it is taken in, and not to
hold whenever its specification is found wrong. Once it was taken in, nothing says again that it
holds: after a reconcile with a valid specification it holds exactly if no wrong one was ever shown
since (`initialized_iff_never_blamed`). A requirement whose specification was wrong for a while
becomes ready with the complaint left over (`blamed_after_correction`).
-/

namespace WarmPool

open Reconcile

namespace RequirementStatus

/-- The requirement was taken in, and is not leaving. -/
def Begun (s : RequirementStatus) : Prop :=
  s.phase = .cacheChecking ∨ s.phase = .operating ∨ s.phase = .ready

/-- A wrong specification is shown of a requirement that was taken in. -/
def Blamed (s : RequirementStatus) : Prop :=
  s.Begun ∧ s.Shows initializedType .false "InvalidSpec"

variable {s : RequirementStatus}

theorem Begun.not_initial (h : s.Begun) : s.phase ≠ .initial := by
  intro hphase
  unfold Begun at h
  rw [hphase] at h
  simp at h

theorem Begun.of_advancesFrom {q : Requirement}
    (h : AdvancesFrom q .operating ∨ AdvancesFrom q .ready) : q.known.Begun := by
  rcases h with h | h
  · exact .inr (.inl h.2.2)
  · exact .inr (.inr h.2.2)

end RequirementStatus

open RequirementStatus

/-! ### What is reported of it -/

namespace Reconcile

variable {occasion : Occasion} {q r : Requirement} {past : List Answered} {s : RequirementStatus}

/-- A report on a requirement that stays takes it in, blames it or leaves what was shown. -/
theorem Reports.initialized_cases (h : Reports occasion q past s) (hbegun : s.Begun) :
    (q.known.phase = .initial ∧ Conditions.holds s.conditions initializedType = true) ∨
      (q.known.Begun ∧ q.spec.validate ≠ .ok () ∧
        s.Shows initializedType .false "InvalidSpec") ∨
      (q.known.Begun ∧ Conditions.find? s.conditions initializedType =
        Conditions.find? q.known.conditions initializedType) := by
  -- A search says something of its cache first, whatever it says of the claim after that.
  have hsearching (s' : RequirementStatus) (hs' : Conditions.find? s'.conditions initializedType =
        Conditions.find? (searching q occasion.now).conditions initializedType) :
      Conditions.find? s'.conditions initializedType =
        Conditions.find? q.known.conditions initializedType :=
    hs'.trans (find?_withCondition _ (by decide) _ _ _ _)
  cases h with
  | deleting _ _ => exact absurd hbegun (by simp [Begun])
  | deleted _ => exact absurd hbegun (by simp [Begun])
  | invalid _ hspec message =>
    exact .inr (.inl ⟨hbegun, hspec, shows_withCondition q.known _ _ _ message occasion.now⟩)
  | taken h =>
    have htaken : Conditions.holds (q.known.taken q.spec.template.key occasion.now).conditions
        initializedType = true := Conditions.holds_set_self q.known.conditions _
    refine .inl ⟨h.2.2, ?_⟩
    unfold intake
    split
    · exact (Conditions.holds_set_of_ne _ (show _ ≠ cacheFoundType by decide)).trans htaken
    · exact htaken
  | made h _ | waiting h _ _ _ | bound h _ _ =>
    exact .inr (.inr ⟨.inl h.2.2, hsearching _ (find?_withCondition _ (by decide) _ _ _ _)⟩)
  | owned h _ _ _ =>
    exact .inr (.inr ⟨.inr (.inl h.2.2), find?_withCondition _ (by decide) _ _ _ _⟩)
  | unbound h _ _ => exact .inr (.inr ⟨.inr (.inl h.2.2), rfl⟩)
  | lost h _ _ | ready h _ _ | notReady h _ _ =>
    exact .inr (.inr ⟨.of_advancesFrom h, find?_withCondition _ (by decide) _ _ _ _⟩)

/-- A reconcile with a valid specification blames nobody who was not blamed before. -/
theorem Outcome.blamed (h : Outcome occasion q r) (hvalid : q.spec.validate = .ok ())
    (hblamed : r.known.Blamed) : q.known.Blamed := by
  cases h with
  | same h => rwa [h] at hblamed
  | @reported past s before h hknown =>
    rw [hknown] at hblamed
    obtain ⟨hbegun, entry, hfound, hentry⟩ := hblamed
    rcases h.initialized_cases hbegun with ⟨-, hholds⟩ | ⟨-, hinvalid, -⟩ | ⟨hbegun, hsame⟩
    · have hshows : s.Shows initializedType .false "InvalidSpec" := ⟨entry, hfound, hentry⟩
      rw [hshows.not_holds] at hholds
      cases hholds
    · exact absurd hvalid hinvalid
    · exact ⟨hbegun, entry, hsame.symm.trans hfound, hentry⟩

end Reconcile

/-! ### What was shown of it -/

namespace Lifetime

variable {r₀ q r : Requirement} {l : Lifetime} {former : List Lifetime} {s : RequirementStatus}

/-- What a status shows of the specification, given the states before. -/
structure Reflects (former : List Lifetime) (s : RequirementStatus) : Prop where
  fresh : s.phase = .initial → ∀ r, Stored former r → r.known.phase = .initial
  shown : s.Begun →
    (Conditions.holds s.conditions initializedType = true ∧
      ∀ r, Stored former r → ¬ r.known.Blamed) ∨
    (s.Blamed ∧ ∃ r, Stored former r ∧ r.known.Begun ∧ r.spec.validate ≠ .ok ())

/-- A status reflects the state in which it is stored, too. -/
theorem Reflects.cons (h : Reflects former r.known) (hstored : l.stored = some r) :
    Reflects (l :: former) r.known := by
  have hcases {r' : Requirement} (hr' : Stored (l :: former) r') : r' = r ∨ Stored former r' := by
    rcases stored_cons_iff.1 hr' with heq | hr'
    · exact .inl (Option.some.inj (heq.symm.trans hstored))
    · exact .inr hr'
  refine ⟨fun hphase r' hr' => ?_, fun hbegun => ?_⟩
  · rcases hcases hr' with rfl | hr'
    · exact hphase
    · exact h.fresh hphase r' hr'
  · rcases h.shown hbegun with ⟨hholds, hnever⟩ | ⟨hblamed, q, hq, hwrong⟩
    · refine .inl ⟨hholds, fun r' hr' hblamed => ?_⟩
      rcases hcases hr' with rfl | hr'
      · rw [hblamed.2.not_holds] at hholds
        cases hholds
      · exact hnever r' hr' hblamed
    · exact .inr ⟨hblamed, q, hq.cons l, hwrong⟩

/-- A report reflects the states before if the status on which it builds does. -/
theorem Reflects.reported {occasion : Occasion} {past : List Answered}
    (h : Reflects former q.known) (hgiven : Stored former q)
    (hreports : Reports occasion q past s) : Reflects former s := by
  refine ⟨fun hphase => h.fresh (hreports.of_initial hphase).1, fun hbegun => ?_⟩
  rcases hreports.initialized_cases hbegun with
    ⟨hinitial, hholds⟩ | ⟨hbefore, hinvalid, hshows⟩ | ⟨hbefore, hsame⟩
  · -- Before it is taken in a requirement was never anywhere else, so that none can be blamed.
    refine .inl ⟨hholds, fun r hr hblamed => ?_⟩
    exact hblamed.1.not_initial (h.fresh hinitial r hr)
  · exact .inr ⟨⟨hbegun, hshows⟩, q, hgiven, hbefore, hinvalid⟩
  · rcases h.shown hbefore with ⟨hholds, hnever⟩ | ⟨⟨-, entry, hfound, hentry⟩, hwrong⟩
    · refine .inl ⟨?_, hnever⟩
      unfold Conditions.holds at hholds ⊢
      rwa [hsame]
    · exact .inr ⟨⟨hbegun, entry, hsame.trans hfound, hentry⟩, hwrong⟩

/-- What is stored reflects all states before. -/
theorem Path.reflects (h : Path (created r₀) former l) (hnew : r₀.status = none)
    (htimely : r₀.Timely) (hstored : l.stored = some r) : Reflects former r.known := by
  -- By induction on the path; a report builds on the status that is stored just before it.
  induction h generalizing r with
  | refl =>
    cases hstored
    rw [Requirement.known_of_new hnew]
    refine ⟨fun _ r hr => ?_, fun hbegun => absurd rfl hbegun.not_initial⟩
    obtain ⟨l, hmem, -⟩ := hr
    cases hmem
  | @step former l l' hpath hstep ih =>
    have hproper := ((proper_created hnew htimely).runs hpath.runs).1
    obtain ⟨q, hq, hbecomes⟩ := hproper.becomes hstep hstored
    have hbefore := (ih hq).cons hq
    cases hbecomes with
    | edited hedits => rwa [hedits.known]
    | @reported t s htask hcurrent hreports hknown =>
      rw [hcurrent.known] at hbefore
      have hreflects := hbefore.reported ((hpath.given rfl htask).cons l) hreports
      rw [hknown]
      exact ⟨hreflects.fresh, hreflects.shown⟩

end Lifetime

/-! ### Reconciles with a valid specification -/

/--
Whatever life a requirement had, after a reconcile with a valid specification in which nothing goes
wrong: if it was taken in and is not leaving, the condition that it was initialized holds exactly if
no wrong specification was ever shown since it was taken in. Otherwise the complaint is still there,
and since it was taken in the requirement had a wrong specification at some time.
-/
theorem initialized_iff_never_blamed {r₀ : Requirement} (hnew : r₀.status = none)
    (htimely : r₀.Timely) {former : List Lifetime} {l : Lifetime}
    (h : Lifetime.Path (.created r₀) former l) {r : Requirement} (hlife : l.stored = some r)
    (hkept : r.isDeleting = false) (hvalid : r.spec.validate = .ok ()) {c : Cluster}
    {namespaceName name : String} (hstored : c.requirement? namespaceName name = some r)
    (hinstants : ∀ x ∈ c.requirements, x.Timely) {occasion : Occasion}
    (hnow : occasion.now.Valid) (settings : Settings) :
    ∃ r', (Rehearsal.reconcile settings occasion (.calm c) r).2.2.cluster.requirement?
        namespaceName name = some r' ∧
      (r'.known.Begun →
        (Conditions.holds r'.known.conditions initializedType = true ↔
          ∀ r₁, Lifetime.Stored (l :: former) r₁ → ¬ r₁.known.Blamed) ∧
        (Conditions.holds r'.known.conditions initializedType = false →
          r'.known.Shows initializedType .false "InvalidSpec" ∧
          ∃ r₁, Lifetime.Stored (l :: former) r₁ ∧ r₁.known.Begun ∧
            r₁.spec.validate ≠ .ok ())) := by
  have hstores : c.Stores namespaceName r := .of_stored hstored hinstants
  have hat := (Cluster.mem_of_requirement? hstored).2
  obtain ⟨r', hafter, halike, houtcome⟩ := exists_outcome hstores hkept hnow settings
  refine ⟨r', hafter.of_alike halike hat, fun hbegun => ?_⟩
  have hbefore := (h.reflects hnew htimely hlife).cons hlife
  have hgiven : Lifetime.Stored (l :: former) r := .head hlife former
  have hreflects : Lifetime.Reflects (l :: former) r'.known := by
    cases houtcome with
    | same h => rwa [h]
    | reported hreports hknown =>
      have hreported := hbefore.reported hgiven hreports
      rw [hknown]
      exact ⟨hreported.fresh, hreported.shown⟩
  rcases hreflects.shown hbegun with ⟨hholds, hnever⟩ | ⟨hblamed, hwrong⟩
  · refine ⟨⟨fun _ => hnever, fun _ => hholds⟩, fun hnot => ?_⟩
    rw [hholds] at hnot
    cases hnot
  · refine ⟨⟨fun hholds => ?_, fun hnever => ?_⟩, fun _ => ⟨hblamed.2, hwrong⟩⟩
    · rw [hblamed.2.not_holds] at hholds
      cases hholds
    · exact absurd (houtcome.blamed hvalid hblamed) (hnever r hgiven)

/-- The sample is taken in, and shows it. -/
theorem initialized_iff_never_blamed_sample : ∃ c : Cluster, ∃ r' : Requirement,
    sampleRequirement.status = none ∧ sampleRequirement.isDeleting = false ∧
    sampleRequirement.spec.validate = .ok () ∧
    c.requirement? "dev" "sample" = some sampleRequirement ∧
    (Rehearsal.reconcile {} sampleOccasion (.calm c) sampleRequirement).2.2.cluster.requirement?
      "dev" "sample" = some r' ∧
    r'.known.Begun ∧ Conditions.holds r'.known.conditions initializedType = true := by
  let c : Cluster := { requirements := [sampleRequirement] }
  have hnow : sampleOccasion.now.Valid := by decide
  have hat : sampleRequirement.metadata.isAt "dev" "sample" = true := rfl
  have hstores : c.Stores "dev" sampleRequirement := .of_only rfl hat sampleRequirement_timely
  have hstored := hstores.of_alike (.refl _) hat
  obtain ⟨calls, c', r', hperforms, hreported⟩ := @plan_performs_initial {} sampleOccasion "dev" c
    sampleRequirement hstores hnow ⟨rfl, validate_sampleRequirement, rfl⟩
  obtain ⟨trace, s, hreconcile, -, rfl⟩ := Rehearsal.reconcile_of_performs hperforms
  obtain ⟨r'', hafter, hshown⟩ := initialized_iff_never_blamed rfl sampleRequirement_timely .refl
    rfl rfl validate_sampleRequirement hstored hstores.timely hnow {}
  have hfound := hreported.stores.of_alike hreported.alike hat
  have hsame : r'' = r' := by
    rw [hreconcile] at hafter
    exact Option.some.inj (hafter.symm.trans hfound)
  subst hsame
  have hbegun : r''.known.Begun := by
    rw [hreported.known]
    exact .inl rfl
  refine ⟨c, r'', rfl, rfl, validate_sampleRequirement, hstored, hafter, hbegun,
    (hshown hbegun).1.2 fun r₁ hr₁ hblamed => ?_⟩
  rcases Lifetime.stored_cons_iff.1 hr₁ with heq | ⟨l, hmem, -⟩
  · cases heq
    exact hblamed.1.not_initial rfl
  · cases hmem

/--
A requirement was ready when its specification became wrong, which a reconcile told it. Then the
specification became valid again: after the next reconcile, in which nothing goes wrong, it is ready
and still shown as having a wrong one.
-/
theorem blamed_after_correction : ∃ r₀ r c action trace s, ∃ r' : Requirement,
    r₀.status = none ∧ r₀.Timely ∧ Lifetime.Runs (.created r₀) { stored := some r } ∧
    r.isDeleting = false ∧ r.spec.validate = .ok () ∧
    c.requirement? "dev" "sample" = some r ∧ (∀ x ∈ c.requirements, x.Timely) ∧
    Rehearsal.reconcile {} sampleOccasion (.calm c) r = (.ok action, trace, s) ∧
    s.cluster.requirement? "dev" "sample" = some r' ∧ r'.known.phase = .ready ∧
    Conditions.holds r'.known.conditions initializedType = false ∧
    r'.known.Shows initializedType .false "InvalidSpec" := by
  have hnow : sampleOccasion.now.Valid := by decide
  -- The sample is ready, and then its specification becomes wrong.
  obtain ⟨q, hruns, halike, hready, hbound⟩ := Lifetime.sample_ready
  have hedits : q.Edits (misedited q) := ⟨rfl, rfl, rfl, id, id⟩
  have hruns := hruns.tail (.edit rfl hedits)
  have hat : (misedited q).metadata.isAt "dev" "sample" = true := halike.isAt rfl
  have hstores : Cluster.Stores { requirements := [misedited q] } "dev" (misedited q) :=
    .of_only rfl hat (hedits.timely (halike.timely sampleRequirement_timely))
  obtain ⟨e, hspec⟩ := misedited_invalid q
  obtain ⟨c₁, r₁, hperforms, hreported⟩ :=
    @plan_performs_invalid {} _ _ _ _ hstores hnow halike.deleting _ hspec
  have hruns := hruns.trans
    (Lifetime.unedited_of_reported hstores halike.deleting hnow hperforms hreported).runs
  -- It becomes valid again, and the operation is still there.
  let r : Requirement := { r₁ with spec := sampleRequirement.spec }
  have hedits₁ : r₁.Edits r := ⟨rfl, rfl, rfl, id, id⟩
  have hr₁ := hreported.stores.requirement_timely
  have hat : r.metadata.isAt "dev" "sample" = true := hreported.alike.isAt hat
  let c : Cluster := { requirements := [r], operations := [Lifetime.heldOperation] }
  have hstored : c.Stores "dev" r := .of_only rfl hat (hedits₁.timely hr₁)
  have hkept : r.isDeleting = false := hreported.alike.deleting.trans halike.deleting
  have hblamed : r.known.Shows initializedType .false "InvalidSpec" := by
    show r₁.known.Shows _ _ _
    rw [hreported.known]
    exact shows_withCondition (misedited q).known _ _ _ _ _
  have hstays : r.known.phase = .ready ∧ r.known.operationName = some "warm" := by
    show r₁.known.phase = .ready ∧ r₁.known.operationName = some "warm"
    rw [hreported.known]
    exact ⟨hready, hbound⟩
  obtain ⟨c', r', hperforms', hreported'⟩ := @plan_performs_ready {} _ _ _ _ c r _ hstored hnow
    (.inr ⟨hkept, validate_sampleRequirement, hstays.1⟩)
    (hreported.alike.uid.trans halike.uid) hstays.2 rfl rfl rfl
  obtain ⟨trace, s, hreconcile, -, rfl⟩ :=
    Rehearsal.reconcile_of_performs hperforms'
  have hshows : r'.known.Shows initializedType .false "InvalidSpec" := by
    rw [hreported'.known]
    exact hblamed.withCondition (by decide) _ _ _ _
  refine ⟨_, r, c, _, trace, s, r', rfl, sampleRequirement_timely, hruns.tail (.edit rfl hedits₁),
    hkept, validate_sampleRequirement, hstored.of_alike (.refl r) hat, hstored.timely, hreconcile,
    hreported'.stores.of_alike hreported'.alike hat, ?_, hshows.not_holds, hshows⟩
  rw [hreported'.known]
  rfl

end WarmPool
