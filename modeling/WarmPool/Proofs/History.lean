import WarmPool.Proofs.Calm
import WarmPool.Proofs.Coherence
import WarmPool.Proofs.Rounds

/-!
# Lives with their past

A run of the life of a requirement together with the states that it went through (`Lifetime.Path`).
A reconcile under way was given what was stored at one of them (`Path.given`), and a step edits the
requirement or lays a report over its status (`Proper.becomes`). What a reconcile does on a
cluster in memory is part of such a life (`Runs.performs`).
-/

namespace WarmPool

open Reconcile

/-! ### What one reconcile stores -/

namespace Reconcile

variable {settings : Settings} {occasion : Occasion} {namespaceName : String} {c : Cluster}
  {q r : Requirement} {past : List Answered} {call : Call}

/-- Unless it is being deleted, the calls of its reconcile leave a requirement stored, alike. -/
theorem Move.exists_after (h : Move occasion q past call) (hkept : q.isDeleting = false)
    (hr : r.Timely) (hq : q.known.Timely) (hnow : occasion.now.Valid) :
    ∃ r', r.after call = some r' ∧ r.Alike r' := by
  cases call with
  | patchStatus name s =>
    obtain ⟨-, -, -, hs⟩ := h.patchStatus_cases
    exact ⟨_, rfl, Requirement.alike_withStatus hr (hs hq hnow)⟩
  | addFinalizer name finalizer => exact ⟨_, rfl, r.alike_takeFinalizer finalizer⟩
  | removeFinalizer name finalizer =>
    have hdeleting : q.isDeleting = true := h.removeFinalizer_cases.2.1.1
    rw [hkept] at hdeleting
    cases hdeleting
  | _ => exact ⟨r, rfl, .refl r⟩

/-- What a reconcile leaves of the status: what it was given, or a report. -/
inductive Outcome (occasion : Occasion) (q r : Requirement) : Prop
  | same (h : r.known = q.known)
  | reported {past : List Answered} {s before : RequirementStatus} (h : Reports occasion q past s)
      (hknown : r.known = (observed q s).laidOver before)

theorem Outcome.congr {r' : Requirement} (h : Outcome occasion q r) (hsame : r'.known = r.known) :
    Outcome occasion q r' := by
  cases h with
  | same h => exact .same (hsame.trans h)
  | reported h hknown => exact .reported h (hsame.trans hknown)

/-- What a call leaves stored is alike, with a status as it was or as it is reported. -/
theorem Outcome.serve (h : Outcome occasion q r) (hstores : c.Stores namespaceName r)
    (halike : q.Alike r) (hkept : q.isDeleting = false) (hq : q.known.Timely)
    (hnow : occasion.now.Valid) (hmove : Move occasion q past call)
    (hground : Grounds occasion q past call) :
    ∃ r', (Cluster.serve namespaceName c c call).2.Stores namespaceName r' ∧ q.Alike r' ∧
      Outcome occasion q r' := by
  have hat : q.metadata.isAt namespaceName r.name = true := by
    rw [← Metadata.isAt_congr halike.place]
    exact hstores.isAt
  have hname : q.name = r.name := Metadata.anyName_of_isAt hat
  have hr := hstores.requirement_timely
  obtain ⟨r', hafter, halike'⟩ := hmove.exists_after hkept hr hq hnow
  -- The requirement is addressed by the name of the one that the reconcile was given.
  have hstored : (Cluster.serve namespaceName c c call).2.requirement? namespaceName q.name =
      some r' :=
    (Cluster.requirement?_serve hstores.timely hq hnow hmove (hname ▸ hstores.stored)).trans hafter
  refine ⟨r', .of_stored hstored (Cluster.timely_serve hmove hat hstores.timely hq hnow),
    halike.trans halike', ?_⟩
  by_cases hwrite : ∃ name status, call = .patchStatus name status
  · obtain ⟨name, status, rfl⟩ := hwrite
    obtain ⟨-, -, -, hs⟩ := hmove.patchStatus_cases
    obtain ⟨s, rfl, hreports⟩ := hground
    obtain rfl := Option.some.inj hafter
    exact .reported hreports (Requirement.withStatus_known hr (hs hq hnow))
  · push Not at hwrite
    exact h.congr (Requirement.edits_after hwrite hafter).known

/-- A reconcile in which nothing goes wrong leaves the requirement stored, with its outcome. -/
theorem exists_outcome (h : c.Stores namespaceName r) (hkept : r.isDeleting = false)
    (hnow : occasion.now.Valid) (settings : Settings) :
    ∃ r', (Rehearsal.reconcile settings occasion (.calm c) r).2.2.cluster.Stores namespaceName r' ∧
      r.Alike r' ∧ Outcome occasion r r' := by
  obtain rfl := h.namespaceName_eq
  rw [Rehearsal.cluster_reconcile]
  refine @Rehearsal.run_keeps r.namespaceName c
    (fun c => ∃ r', c.Stores r.namespaceName r' ∧ r.Alike r' ∧ Outcome occasion r r') _ _ _
    (plan_within settings occasion r)
    ((plan_obeys settings occasion r).and (plan_grounds settings occasion r))
    (fun past call c hcall hafter => ?_) settings.timeout .zero ⟨r, h, .refl r, .same rfl⟩
  obtain ⟨r', hstores, halike, houtcome⟩ := hafter
  exact houtcome.serve hstores halike hkept h.requirement_timely.2 hnow hcall.1 hcall.2

end Reconcile

namespace Lifetime

variable {l₀ l l' : Lifetime} {former : List Lifetime}

/-! ### Paths -/

/-- A run with the states that it went through, the latest first. -/
inductive Path (l₀ : Lifetime) : List Lifetime → Lifetime → Prop
  | refl : Path l₀ [] l₀
  | step {former : List Lifetime} {l l' : Lifetime} (h : Path l₀ former l) (hstep : Step l l') :
      Path l₀ (l :: former) l'

theorem Path.runs (h : Path l₀ former l) : Runs l₀ l := by
  induction h with
  | refl => exact .refl
  | step _ hstep ih => exact ih.tail hstep

theorem Runs.exists_path (h : Runs l₀ l) : ∃ former, Path l₀ former l := by
  induction h with
  | refl => exact ⟨[], .refl⟩
  | tail _ hstep ih =>
    obtain ⟨former, hpath⟩ := ih
    exact ⟨_, hpath.step hstep⟩

/-- The requirement was stored like this in one of these states. -/
def Stored (states : List Lifetime) (r : Requirement) : Prop :=
  ∃ l ∈ states, l.stored = some r

theorem Stored.head {r : Requirement} (h : l.stored = some r) (former : List Lifetime) :
    Stored (l :: former) r := ⟨l, List.mem_cons_self, h⟩

theorem Stored.cons {r : Requirement} (h : Stored former r) (l : Lifetime) :
    Stored (l :: former) r := by
  obtain ⟨l', hmem, hstored⟩ := h
  exact ⟨l', List.mem_cons_of_mem _ hmem, hstored⟩

theorem stored_cons_iff {r : Requirement} :
    Stored (l :: former) r ↔ l.stored = some r ∨ Stored former r := by
  unfold Stored
  simp

/-! ### The reconcile under way -/

/-- The rest of a reconcile obeys what every reconcile obeys from its start. -/
theorem Path.obeys {ok : Settings → Occasion → Requirement → List Answered → Call → Prop}
    (hok : ∀ settings occasion r, (plan settings occasion r).Obeys (ok settings occasion r) [])
    (h : Path l₀ former l) (hfirst : l₀.task = none) {t : Task} (ht : l.task = some t) :
    t.rest.Obeys (ok t.settings t.occasion t.requirement) t.past := by
  induction h generalizing t with
  | refl =>
    rw [hfirst] at ht
    cases ht
  | step _ hstep ih =>
    cases hstep with
    | start settings _ _ _ =>
      cases ht
      exact hok _ _ _
    | event htask hrest =>
      cases ht
      have hobeys := ih htask
      rwa [hrest] at hobeys
    | measure htask hrest =>
      cases ht
      have hobeys := ih htask
      rwa [hrest] at hobeys
    | lost htask hrest reply =>
      cases ht
      have hobeys := ih htask
      rw [hrest] at hobeys
      exact hobeys.2 reply
    | served htask hrest reply =>
      cases ht
      have hobeys := ih htask
      rw [hrest] at hobeys
      exact hobeys.2 reply
    | stop => cases ht
    | edit _ _ => exact ih ht
    | remove => exact ih ht

/-- A reconcile was given what was stored when it started. -/
theorem Path.given (h : Path l₀ former l) (hfirst : l₀.task = none) {t : Task}
    (ht : l.task = some t) : Stored former t.requirement := by
  induction h generalizing t with
  | refl =>
    rw [hfirst] at ht
    cases ht
  | step _ hstep ih =>
    cases hstep with
    | start settings _ hstored _ =>
      cases ht
      exact .head hstored _
    | stop => cases ht
    | event htask _ | measure htask _ | lost htask _ _ | served htask _ _ =>
      cases ht
      exact (ih htask).cons _
    | edit _ _ | remove => exact (ih ht).cons _

/-! ### What becomes of the status -/

/-- What becomes of a stored requirement in a step: it is edited, or a report is laid over it. -/
inductive Becomes (l : Lifetime) (r r' : Requirement) : Prop
  | edited (h : r.Edits r')
  | reported {t : Task} {s : RequirementStatus} (htask : l.task = some t)
      (hcurrent : t.requirement.Edits r) (h : Reports t.occasion t.requirement t.past s)
      (hknown : r'.known = (observed t.requirement s).laidOver r.known)

theorem Proper.becomes (h : l.Proper) (hstep : Step l l') {r' : Requirement}
    (hr' : l'.stored = some r') : ∃ r, l.stored = some r ∧ l.Becomes r r' := by
  -- Only a call that takes effect or an edit changes what is stored.
  cases hstep with
  | @served t n call next htask hrest reply =>
    obtain ⟨r, hr, hafter⟩ := Option.bind_eq_some_iff.1 hr'
    refine ⟨r, hr, ?_⟩
    by_cases hwrite : ∃ name status, call = .patchStatus name status
    · obtain ⟨name, status, rfl⟩ := hwrite
      have ht := h.task t htask
      have hmove := ht.moves
      have hground := ht.grounds
      rw [hrest] at hmove hground
      obtain ⟨-, -, hfirst, htimely⟩ := hmove.1.patchStatus_cases
      obtain ⟨s, rfl, hreports⟩ := hground.1
      obtain rfl := Option.some.inj hafter
      refine .reported htask (ht.current hfirst r hr) hreports ?_
      exact Requirement.withStatus_known (h.stored r hr).timely
        (htimely ht.requirement.timely.2 ht.now)
    · push Not at hwrite
      exact .edited (Requirement.edits_after hwrite hafter)
  | @edit r _ hstored hedits =>
    cases hr'
    exact ⟨r, hstored, .edited hedits⟩
  | remove => cases hr'
  | start _ _ _ _ | event _ _ | measure _ _ | lost _ _ _ | stop =>
    exact ⟨r', hr', .edited (.refl r')⟩

/-! ### Lives whose specification nobody edits -/

/-- A step after which the requirement, if it is stored, has the specification that it had. -/
def KeepsSpec (l l' : Lifetime) : Prop :=
  Step l l' ∧ ∀ r', l'.stored = some r' → ∃ r, l.stored = some r ∧ r'.spec = r.spec

/-- A run in which nobody edits the specification. -/
abbrev Unedited : Lifetime → Lifetime → Prop := Relation.ReflTransGen KeepsSpec

theorem KeepsSpec.of_stored (hstep : Step l l') (h : l'.stored = l.stored) : KeepsSpec l l' :=
  ⟨hstep, fun r' hr' => ⟨r', h ▸ hr', rfl⟩⟩

theorem Unedited.runs (h : Unedited l₀ l) : Runs l₀ l :=
  Relation.ReflTransGen.mono (show KeepsSpec ≤ Step from fun _ _ hstep => hstep.1) l₀ l h

/-- On the way the requirement always had the specification that it had at the start. -/
theorem Unedited.exists_path (h : Unedited l₀ l) : ∃ former, Path l₀ former l ∧
    ∀ r, Stored (l :: former) r → ∃ r₀, l₀.stored = some r₀ ∧ r.spec = r₀.spec := by
  induction h with
  | refl =>
    refine ⟨[], .refl, fun r hr => ?_⟩
    rcases stored_cons_iff.1 hr with hr | ⟨l, hmem, -⟩
    · exact ⟨r, hr, rfl⟩
    · cases hmem
  | tail _ hstep ih =>
    obtain ⟨former, hpath, hspec⟩ := ih
    refine ⟨_, hpath.step hstep.1, fun r hr => ?_⟩
    rcases stored_cons_iff.1 hr with hr | hr
    · obtain ⟨r', hr', hsame⟩ := hstep.2 r hr
      rw [hsame]
      exact hspec r' (.head hr' former)
    · exact hspec r hr

/-! ### Reconciles on a cluster in memory -/

variable {settings : Settings} {occasion : Occasion} {q r : Requirement} {past : List Answered}
  {rest : Plan Action} {namespaceName : String} {c c' : Cluster} {action : Action}
  {calls : List Call}

/-- What is left of a reconcile is carried out on a cluster, step by step. -/
theorem Unedited.performs {hwithin : rest.Within q.namespaceName}
    (h : Unedited l₀
      { stored := some r, task := some ⟨settings, occasion, q, past, rest, hwithin⟩ })
    (hobeys : rest.Obeys (Move occasion q) past)
    (hperforms : rest.Performs namespaceName c action calls c')
    (hkept : q.isDeleting = false) (hq : q.known.Timely) (hnow : occasion.now.Valid)
    (hat : q.metadata.isAt namespaceName q.name = true)
    (htimely : ∀ x ∈ c.requirements, x.Timely)
    (hstored : c.requirement? namespaceName q.name = some r) :
    Unedited l₀ { stored := c'.requirement? namespaceName q.name } := by
  -- By induction on what is performed: a call is served in the life as it is on the cluster, with
  -- the reply that the cluster gave.
  induction hperforms generalizing past r with
  | done =>
    rw [hstored]
    exact h.tail (.of_stored .stop rfl)
  | @call call next c c₁ c' reply action calls hserve _ ih =>
    obtain ⟨r', hafter, halike⟩ :=
      hobeys.1.exists_after hkept (htimely r (Cluster.mem_of_requirement? hstored).1) hq hnow
    have hserved : (Cluster.serve namespaceName c c call).2 = c₁ := by rw [hserve]
    have hstored' : c₁.requirement? namespaceName q.name = some r' := by
      rw [← hserved, Cluster.requirement?_serve htimely hq hnow hobeys.1 hstored, hafter]
    let t : Task := ⟨settings, occasion, q, past, .call namespaceName call next, hwithin⟩
    have hrest : t.rest = .call namespaceName call next := rfl
    have hstep : Step { stored := some r, task := some t }
        { stored := (some r).bind (·.after call), task := some (t.answered hrest reply) } :=
      .served rfl hrest reply
    rw [Option.bind_some, hafter] at hstep
    have hkeeps : KeepsSpec { stored := some r, task := some t }
        { stored := some r', task := some (t.answered hrest reply) } := by
      refine ⟨hstep, ?_⟩
      rintro _ ⟨⟩
      exact ⟨r, rfl, halike.spec⟩
    refine ih (h.tail hkeeps) (hobeys.2 reply) ?_ hstored'
    rw [← hserved]
    exact Cluster.timely_serve hobeys.1 hat htimely hq hnow
  | @event e next _ _ _ _ _ ih =>
    have hstep (t : Task) (hrest : t.rest = .event e next) :
        Step { stored := some r, task := some t }
          { stored := some r, task := some (t.told hrest) } := .event rfl hrest
    exact ih (h.tail (.of_stored (hstep _ rfl) rfl)) hobeys htimely hstored
  | @measure m next _ _ _ _ _ ih =>
    have hstep (t : Task) (hrest : t.rest = .measure m next) :
        Step { stored := some r, task := some t }
          { stored := some r, task := some (t.counted hrest) } := .measure rfl hrest
    exact ih (h.tail (.of_stored (hstep _ rfl) rfl)) hobeys htimely hstored

/-- A reconcile on a cluster that comes to a report is part of a life, and leaves it stored. -/
theorem unedited_of_reported {s : RequirementStatus} {made : Cluster} {r' : Requirement}
    (hstores : c.Stores namespaceName r) (hkept : r.isDeleting = false)
    (hnow : occasion.now.Valid)
    (hperforms : (plan settings occasion r).Performs namespaceName c action calls c')
    (hreported : made.Reported namespaceName r s c' r') :
    Unedited { stored := some r } { stored := some r' } := by
  have hstart : KeepsSpec { stored := some r }
      { stored := some r, task := some (.start settings occasion r) } :=
    .of_stored (.start settings rfl rfl hnow) rfl
  have hafter := Unedited.performs (.single hstart) (plan_obeys settings occasion r) hperforms
    hkept hstores.requirement_timely.2 hnow hstores.isAt hstores.timely hstores.stored
  rwa [hreported.stores.of_alike hreported.alike hstores.isAt] at hafter

/-- The sample is taken in: it searches a pool, with the key of its template. -/
theorem sample_taken : ∃ r, Unedited (created sampleRequirement) { stored := some r } ∧
    sampleRequirement.Alike r ∧ r.known.phase = .cacheChecking ∧
    r.known.key = some sampleRequirement.spec.template.key := by
  have hat : sampleRequirement.metadata.isAt "dev" "sample" = true := rfl
  have hstores : Cluster.Stores { requirements := [sampleRequirement] } "dev" sampleRequirement :=
    .of_only rfl hat sampleRequirement_timely
  have hnow : sampleOccasion.now.Valid := by decide
  obtain ⟨calls, c', r, hperforms, hreported⟩ :=
    @plan_performs_initial {} _ _ _ _ hstores hnow ⟨rfl, validate_sampleRequirement, rfl⟩
  refine ⟨r, unedited_of_reported hstores rfl hnow hperforms hreported, hreported.alike, ?_⟩
  rw [hreported.known]
  exact ⟨rfl, rfl⟩

end Lifetime

end WarmPool
