import WarmPool.Proofs.Conditions
import WarmPool.Proofs.Course
import WarmPool.Proofs.Lifetime
import WarmPool.Proofs.Stock

/-!
# Coherent statuses

What a status says fits together (`RequirementStatus.Coherent`), and what it says later fits what it
said before (`RequirementStatus.Evolves`), from the creation of a requirement on and whatever a
reconcile is answered (`status_coherent`). Each report is coherent if the status on which it builds
is (`Reports.coherent`); the steps of a life carry this on (`Lifetime.Proper.step`).
-/

namespace WarmPool

open Reconcile

namespace RequirementStatus

/-- The parts of a status fit together. -/
structure Coherent (s : RequirementStatus) : Prop where
  distinct : (s.conditions.map Condition.type).Nodup
  unbound : s.phase = .initial ∨ s.phase = .cacheChecking → s.operationName = none
  bound : s.phase = .ready → s.operationName.isSome
  shown : s.phase = .ready → Conditions.holds s.conditions readyType = true
  honest : Conditions.holds s.conditions readyType = true →
    s.phase = .ready ∨ s.phase = .deleting ∨ s.phase = .deleted

/-- One status may come after another: the key stays, and so does a deletion. -/
structure Evolves (s s' : RequirementStatus) : Prop where
  key : ∀ key, s.key = some key → s'.key = some key
  deleting : s.phase = .deleting → s'.phase = .deleting ∨ s'.phase = .deleted
  deleted : s.phase = .deleted → s'.phase = .deleted

variable {s s' s'' : RequirementStatus}

theorem Evolves.refl (s : RequirementStatus) : s.Evolves s := ⟨fun _ => id, .inl, id⟩

theorem Evolves.trans (h : s.Evolves s') (h' : s'.Evolves s'') : s.Evolves s'' := by
  refine ⟨fun key hkey => h'.key key (h.key key hkey), fun hphase => ?_,
    fun hphase => h'.deleted (h.deleted hphase)⟩
  rcases h.deleting hphase with hphase | hphase
  · exact h'.deleting hphase
  · exact .inr (h'.deleted hphase)

theorem coherent_default : Coherent {} :=
  ⟨List.nodup_nil, fun _ => rfl, RequirementPhase.noConfusion, RequirementPhase.noConfusion,
    Bool.noConfusion⟩

/-- A condition of another type than readiness leaves a status coherent. -/
theorem Coherent.withCondition (h : s.Coherent) {type : String} (hne : readyType ≠ type)
    (status : ConditionStatus) (reason message : String) (now : Timestamp) :
    (s.withCondition type status reason message now).Coherent := by
  have hholds : Conditions.holds (s.withCondition type status reason message now).conditions
      readyType = Conditions.holds s.conditions readyType :=
    Conditions.holds_set_of_ne s.conditions hne
  refine ⟨Conditions.nodup_types_set h.distinct _, h.unbound, h.bound, fun hphase => ?_,
    fun hready => h.honest ?_⟩
  · rw [hholds]
    exact h.shown hphase
  · rwa [← hholds]

/-- Without readiness, any phase but that is coherent, if it has no operation too many. -/
theorem coherent_of_not_holds (hdistinct : (s.conditions.map Condition.type).Nodup)
    (hholds : Conditions.holds s.conditions readyType = false) (hready : s.phase ≠ .ready)
    (hunbound : s.phase = .initial ∨ s.phase = .cacheChecking → s.operationName = none) :
    s.Coherent :=
  ⟨hdistinct, hunbound, fun hphase => absurd hphase hready, fun hphase => absurd hphase hready,
    fun htrue => absurd htrue (by simp [hholds])⟩

/-- From a phase in which an operation is looked for or awaited, a status may go to another one. -/
theorem Coherent.moved (h : s.Coherent)
    (hphase : s.phase = .initial ∨ s.phase = .cacheChecking ∨ s.phase = .operating)
    {phase : RequirementPhase} {key operationName : Option String} (hready : phase ≠ .ready)
    (hunbound : phase = .initial ∨ phase = .cacheChecking → operationName = none) :
    Coherent { s with phase := phase, key := key, operationName := operationName } := by
  refine coherent_of_not_holds h.distinct ?_ hready hunbound
  rw [Bool.eq_false_iff]
  intro hholds
  have hshown := h.honest hholds
  rcases hphase with hphase | hphase | hphase
  all_goals
    rw [hphase] at hshown
    simp at hshown

/-- Once readiness is said not to hold, no phase needs more than that. -/
theorem coherent_unready (h : (s.conditions.map Condition.type).Nodup) (reason message : String)
    (now : Timestamp) {phase : RequirementPhase} {operationName : Option String}
    (hready : phase ≠ .ready)
    (hunbound : phase = .initial ∨ phase = .cacheChecking → operationName = none) :
    Coherent
      { s.withCondition readyType .false reason message now with
        phase := phase
        operationName := operationName } :=
  coherent_of_not_holds (Conditions.nodup_types_set h _)
    (Conditions.holds_set_self s.conditions ⟨readyType, .false, reason, message, now⟩) hready
    hunbound

end RequirementStatus

/-! ### Proper requirements -/

/-- The status of a requirement is coherent and fits the requirement. -/
structure Requirement.Proper (r : Requirement) : Prop where
  timely : r.Timely
  coherent : r.known.Coherent
  keyless : r.known.phase = .initial → r.known.key = none
  leaving : r.known.phase = .deleting ∨ r.known.phase = .deleted → r.isDeleting = true
  identified : r.known.phase = .ready → r.metadata.uid.isSome

namespace Requirement

variable {r r' : Requirement}

theorem proper_of_new (hnew : r.status = none) (htimely : r.Timely) : r.Proper := by
  have hknown : r.known = {} := known_of_new hnew
  refine ⟨htimely, ?_, ?_, ?_, ?_⟩
  · rw [hknown]
    exact RequirementStatus.coherent_default
  all_goals
    rw [hknown]
    simp

theorem Proper.edits (hr : r.Proper) (h : r.Edits r') : r'.Proper := by
  refine ⟨h.timely hr.timely, ?_, ?_, ?_, ?_⟩
  all_goals rw [h.known]
  · exact hr.coherent
  · exact hr.keyless
  · exact fun hphase => h.deleting (hr.leaving hphase)
  · rw [h.uid]
    exact hr.identified

end Requirement

namespace Reconcile

variable {occasion : Occasion} {q r : Requirement} {past : List Answered} {s : RequirementStatus}

/-! ### Reports -/

/-- The search of a pool starts from a coherent status. -/
theorem coherent_searching (hq : q.known.Coherent) (now : Timestamp) :
    (searching q now).Coherent := by
  have hkey : RequirementStatus.Coherent
      { q.known with key := some (soughtKey q q.known) } :=
    ⟨hq.distinct, hq.unbound, hq.bound, hq.shown, hq.honest⟩
  exact hkey.withCondition (by decide) _ _ _ _

/-- A report is coherent if the status on which it builds is. -/
theorem Reports.coherent (h : Reports occasion q past s) (hq : q.known.Coherent) :
    s.Coherent := by
  have hsearching := coherent_searching hq occasion.now
  cases h with
  | deleting _ _ => exact ⟨hq.distinct, by simp, by simp, by simp, fun _ => .inr (.inl rfl)⟩
  | deleted _ => exact ⟨hq.distinct, by simp, by simp, by simp, fun _ => .inr (.inr rfl)⟩
  | invalid _ _ message => exact hq.withCondition (by decide) _ _ _ _
  | taken h =>
    have htaken : (q.known.taken q.spec.template.key occasion.now).Coherent :=
      hq.withCondition (by decide) _ _ _ _
    have hsought : ((q.known.taken q.spec.template.key occasion.now).cacheUnknown
        (Cache.nameForKey q.spec.template.key) occasion.now).Coherent :=
      htaken.withCondition (by decide) _ _ _ _
    unfold intake
    split
    · exact hsought.moved (.inl h.2.2) RequirementPhase.noConfusion
        fun _ => hq.unbound (.inl h.2.2)
    · exact htaken.moved (.inl h.2.2) RequirementPhase.noConfusion (by simp)
  | made h _ => exact hsearching.withCondition (by decide) _ _ _ _
  | waiting h _ _ _ => exact hsearching.withCondition (by decide) _ _ _ _
  | @bound h uid cache operations op _ _ =>
    have hbase : ((searching q occasion.now).acquired op.name
        (Cache.nameForKey (soughtKey q q.known)) occasion.now).Coherent :=
      hsearching.withCondition (by decide) _ _ _ _
    exact hbase.moved (.inr (.inl h.2.2)) RequirementPhase.noConfusion (by simp)
  | owned h _ _ operation =>
    have hbase : (q.known.provisioned operation occasion.now).Coherent :=
      hq.withCondition (by decide) _ _ _ _
    exact hbase.moved (.inr (.inr h.2.2)) RequirementPhase.noConfusion (by simp)
  | unbound h hunbound _ =>
    exact hq.moved (.inr (.inr h.2.2)) RequirementPhase.noConfusion fun _ => hunbound
  | lost h _ message =>
    exact RequirementStatus.coherent_unready hq.distinct _ message occasion.now
      (coming_ne q (by simp) (by simp)) fun _ => rfl
  | notReady h hbound _ =>
    exact RequirementStatus.coherent_unready hq.distinct _ _ occasion.now
      RequirementPhase.noConfusion (by simp)
  | @ready h operation op hbound _ =>
    refine ⟨Conditions.nodup_types_set hq.distinct _, by simp, fun _ => ?_, fun _ => ?_,
      fun _ => .inl rfl⟩
    · exact Option.isSome_iff_exists.2 ⟨operation, hbound.bound⟩
    · exact Conditions.holds_set_self q.known.conditions
        ⟨RequirementStatus.readyType, .true, "OperationReady", operation ++ " is Ready",
          occasion.now⟩

/-- A report goes on from a status: it keeps the key, and a deletion is not left. -/
theorem Reports.evolves (h : Reports occasion q past s) (hq : q.Proper) : q.known.Evolves s := by
  have hfrom {phase : RequirementPhase} (hadvances : AdvancesFrom q phase)
      (hdeleting : phase ≠ .deleting) (hdeleted : phase ≠ .deleted)
      (hkey : ∀ key, q.known.key = some key → s.key = some key) : q.known.Evolves s := by
    obtain ⟨-, -, rfl⟩ := hadvances
    exact ⟨hkey, fun hphase => absurd hphase hdeleting, fun hphase => absurd hphase hdeleted⟩
  have hinitial (hadvances : AdvancesFrom q .initial) (s' : RequirementStatus) (key : String)
      (hkey : q.known.key = some key) : s'.key = some key := by
    rw [hq.keyless hadvances.2.2] at hkey
    cases hkey
  have hsought (key : String) (hkey : q.known.key = some key) :
      some (soughtKey q q.known) = some key := by
    unfold soughtKey
    rw [hkey]
    rfl
  have hfollowed (hadvances : AdvancesFrom q .operating ∨ AdvancesFrom q .ready)
      (hkey : s.key = q.known.key) : q.known.Evolves s := by
    rcases hadvances with hadvances | hadvances
    all_goals exact hfrom hadvances (by simp) (by simp) fun key => hkey.trans
  cases h with
  | deleting _ hphase =>
    exact ⟨fun _ => id, fun _ => .inl rfl, fun hdeleted => absurd (.inr hdeleted) hphase⟩
  | deleted _ => exact ⟨fun _ => id, fun _ => .inr rfl, fun _ => rfl⟩
  | invalid _ _ _ => exact ⟨fun _ => id, .inl, id⟩
  | taken h => exact hfrom h (by simp) (by simp) (hinitial h _)
  | made h _ => exact hfrom h (by simp) (by simp) hsought
  | waiting h _ _ _ => exact hfrom h (by simp) (by simp) hsought
  | bound h _ _ => exact hfrom h (by simp) (by simp) hsought
  | owned h _ _ _ => exact hfrom h (by simp) (by simp) fun _ => id
  | unbound h _ _ => exact hfrom h (by simp) (by simp) fun _ => id
  | lost h _ _ => exact hfollowed h rfl
  | ready h _ _ => exact hfollowed h rfl
  | notReady h _ _ => exact hfollowed h rfl

/-- The first phase is reported again only where the specification is wrong. -/
theorem Reports.of_initial (h : Reports occasion q past s) (hphase : s.phase = .initial) :
    q.known.phase = .initial ∧ s.key = q.known.key := by
  have hcoming := @coming_ne q .initial (by simp) (by simp)
  cases h with
  | invalid _ _ _ => exact ⟨hphase, rfl⟩
  | taken _ => exact absurd ((intake_phase q _).symm.trans hphase) hcoming
  | made h _ => exact absurd (h.2.2.symm.trans hphase) RequirementPhase.noConfusion
  | waiting h _ _ _ => exact absurd (h.2.2.symm.trans hphase) RequirementPhase.noConfusion
  | lost _ _ _ => exact absurd hphase hcoming
  | _ => cases hphase

/-- A deletion is reported only of a requirement that is being deleted. -/
theorem Reports.of_leaving (h : Reports occasion q past s) (hq : q.Proper)
    (hphase : s.phase = .deleting ∨ s.phase = .deleted) : q.isDeleting = true := by
  have hcoming {phase : RequirementPhase} (hsame : s.phase = phase)
      (hdeleting : phase ≠ .deleting) (hdeleted : phase ≠ .deleted) : q.isDeleting = true := by
    rw [hsame] at hphase
    exact absurd hphase (not_or.2 ⟨hdeleting, hdeleted⟩)
  cases h with
  | deleting hdeleting _ => exact hdeleting
  | deleted h => exact h.1
  | invalid _ _ _ => exact hq.leaving hphase
  | taken _ =>
    exact hcoming (intake_phase q _) (coming_ne q (by simp) (by simp))
      (coming_ne q (by simp) (by simp))
  | made h _ => exact hcoming h.2.2 (by simp) (by simp)
  | waiting h _ _ _ => exact hcoming h.2.2 (by simp) (by simp)
  | lost _ _ _ =>
    exact hcoming rfl (coming_ne q (by simp) (by simp)) (coming_ne q (by simp) (by simp))
  | _ => exact hcoming rfl (by simp) (by simp)

/-- Readiness is reported of a requirement that looked at its operation, or was reported before. -/
theorem Reports.of_ready (h : Reports occasion q past s) (hphase : s.phase = .ready) :
    (q.spec.validate ≠ .ok () ∧ q.known.phase = .ready) ∨
      (AdvancesFrom q .operating ∨ AdvancesFrom q .ready) ∧
        ∃ operation op, Bound q past operation op := by
  have hcoming := @coming_ne q .ready (by simp) (by simp)
  cases h with
  | invalid _ hspec _ => exact .inl ⟨hspec, hphase⟩
  | taken _ => exact absurd ((intake_phase q _).symm.trans hphase) hcoming
  | made h _ => exact absurd (h.2.2.symm.trans hphase) RequirementPhase.noConfusion
  | waiting h _ _ _ => exact absurd (h.2.2.symm.trans hphase) RequirementPhase.noConfusion
  | lost _ _ _ => exact absurd hphase hcoming
  | ready h hbound _ => exact .inr ⟨h, _, _, hbound⟩
  | _ => cases hphase

end Reconcile

namespace Requirement

variable {occasion : Occasion} {q r : Requirement} {past : List Answered} {s : RequirementStatus}

/-- A report on a requirement that was at most edited meanwhile leaves it proper. -/
theorem Proper.written (hq : q.Proper) (hr : q.Edits r) (h : Reports occasion q past s)
    (hs : s.Timely) :
    (r.withStatus (observed q s)).Proper ∧
      r.known.Evolves (r.withStatus (observed q s)).known := by
  have htimely : r.Timely := hr.timely hq.timely
  have hs' : (observed q s).Timely := hs
  have hknown : (r.withStatus (observed q s)).known = (observed q s).laidOver q.known := by
    rw [withStatus_known htimely hs', hr.known]
  have hevolves := h.evolves hq
  have hcoherent := h.coherent hq.coherent
  refine ⟨⟨withStatus_timely htimely hs', ?_, ?_, ?_, ?_⟩, ?_⟩
  all_goals rw [hknown]
  · exact ⟨hcoherent.distinct, hcoherent.unbound, hcoherent.bound, hcoherent.shown,
      hcoherent.honest⟩
  · intro hphase
    obtain ⟨hinitial, hkey⟩ := h.of_initial hphase
    show s.key.or q.known.key = none
    rw [hkey, hq.keyless hinitial]
    rfl
  · intro hphase
    rw [withStatus_isDeleting htimely hs']
    exact hr.deleting (h.of_leaving hq hphase)
  · intro hphase
    rw [withStatus_uid htimely hs', hr.uid]
    rcases h.of_ready hphase with ⟨-, hready⟩ | ⟨-, operation, op, hbound⟩
    · exact hq.identified hready
    · obtain ⟨uid, huid, -⟩ := hbound.referred
      rw [huid]
      rfl
  · rw [hr.known]
    refine ⟨fun key hkey => ?_, hevolves.deleting, hevolves.deleted⟩
    show s.key.or q.known.key = some key
    rw [hevolves.key key hkey]
    rfl

end Requirement

/-! ### Proper lives -/

/-- What holds of a reconcile under way, while it is the only one. -/
structure Task.Proper (t : Task) (stored : Option Requirement) : Prop where
  requirement : t.requirement.Proper
  now : t.occasion.now.Valid
  moves : t.rest.Obeys (Move t.occasion t.requirement) t.past
  grounds : t.rest.Obeys (Grounds t.occasion t.requirement) t.past
  /-- Until it writes a status, what is stored is at most an edit of what it was given. -/
  current : Unwritten t.past → ∀ r, stored = some r → t.requirement.Edits r

namespace Task

variable {t : Task} {stored : Option Requirement} {n : String} {call : Call}
  {next : Except Error call.Reply → Plan Action}

theorem Proper.start {settings : Settings} {occasion : Occasion} {r : Requirement} (hr : r.Proper)
    (hnow : occasion.now.Valid) : (Task.start settings occasion r).Proper (some r) := by
  refine ⟨hr, hnow, plan_obeys settings occasion r, plan_grounds settings occasion r, ?_⟩
  rintro - r' ⟨⟩
  exact .refl r

/-- An answer tells a reconcile nothing that it relies on here. -/
theorem Proper.answered (h : t.Proper stored) (hrest : t.rest = .call n call next)
    (reply : Except Error call.Reply) : (t.answered hrest reply).Proper stored := by
  have hmoves := h.moves
  have hgrounds := h.grounds
  rw [hrest] at hmoves hgrounds
  exact ⟨h.requirement, h.now, hmoves.2 reply, hgrounds.2 reply,
    fun hfirst => h.current fun a ha => hfirst a (List.mem_cons_of_mem _ ha)⟩

theorem Proper.stored_edits {r r' : Requirement} (h : t.Proper (some r)) (hr : r.Edits r') :
    t.Proper (some r') := by
  refine ⟨h.requirement, h.now, h.moves, h.grounds, fun hfirst => ?_⟩
  rintro r'' ⟨⟩
  exact (h.current hfirst r rfl).trans hr

theorem Proper.stored_none (h : t.Proper stored) : t.Proper none :=
  ⟨h.requirement, h.now, h.moves, h.grounds, fun _ _ hnone => nomatch hnone⟩

/-- What a call of a reconcile makes of the requirement is proper, and so is the reconcile. -/
theorem Proper.served {r : Requirement} (h : t.Proper (some r)) (hr : r.Proper)
    (hrest : t.rest = .call n call next) (reply : Except Error call.Reply) :
    (t.answered hrest reply).Proper (r.after call) ∧
      ∀ r', r.after call = some r' → r'.Proper ∧ r.known.Evolves r'.known := by
  have hanswered := h.answered hrest reply
  have hmove := h.moves
  have hground := h.grounds
  rw [hrest] at hmove hground
  by_cases hwrite : ∃ name status, call = .patchStatus name status
  · obtain ⟨name, status, rfl⟩ := hwrite
    obtain ⟨-, -, hfirst, htimely⟩ := hmove.1.patchStatus_cases
    obtain ⟨s, rfl, hreports⟩ := hground.1
    have hstatus : s.Timely := htimely h.requirement.timely.2 h.now
    obtain ⟨hproper, hevolves⟩ :=
      h.requirement.written (h.current hfirst r rfl) hreports hstatus
    refine ⟨⟨hanswered.requirement, hanswered.now, hanswered.moves, hanswered.grounds,
      fun hunwritten => absurd rfl (hunwritten _ List.mem_cons_self name _)⟩, fun r' hr' => ?_⟩
    obtain rfl := Option.some.inj hr'
    exact ⟨hproper, hevolves⟩
  · push Not at hwrite
    cases hafter : r.after call with
    | none => exact ⟨hanswered.stored_none, fun _ hnone => nomatch hnone⟩
    | some r' =>
      have hedits := Requirement.edits_after hwrite hafter
      refine ⟨hanswered.stored_edits hedits, ?_⟩
      rintro r'' ⟨⟩
      exact ⟨hr.edits hedits, hedits.known ▸ .refl _⟩

end Task

namespace Lifetime

variable {l l' : Lifetime}

/-- The stored requirement is proper, and so is the reconcile under way. -/
structure Proper (l : Lifetime) : Prop where
  stored : ∀ r, l.stored = some r → r.Proper
  task : ∀ t, l.task = some t → t.Proper l.stored

/-- What is stored came out of what was stored before. -/
def Continues (l l' : Lifetime) : Prop :=
  ∀ r', l'.stored = some r' → ∃ r, l.stored = some r ∧ r.known.Evolves r'.known

theorem Continues.of_stored (h : l'.stored = l.stored) : l.Continues l' :=
  fun r' hr' => ⟨r', h ▸ hr', .refl _⟩

theorem Continues.trans {l'' : Lifetime} (h : l.Continues l') (h' : l'.Continues l'') :
    l.Continues l'' := by
  intro r'' hr''
  obtain ⟨r', hr', hevolves'⟩ := h' r'' hr''
  obtain ⟨r, hr, hevolves⟩ := h r' hr'
  exact ⟨r, hr, hevolves.trans hevolves'⟩

/-- Every step keeps a life proper, and what it stores goes on from what was stored. -/
theorem Proper.step (h : l.Proper) (hstep : Step l l') : l'.Proper ∧ l.Continues l' := by
  cases hstep with
  | start settings htask hstored hnow =>
    refine ⟨⟨h.stored, ?_⟩, .of_stored rfl⟩
    rintro t ⟨⟩
    exact hstored ▸ .start (h.stored _ hstored) hnow
  | @event t e next htask hrest =>
    refine ⟨⟨h.stored, ?_⟩, .of_stored rfl⟩
    obtain ⟨hrequirement, hnow, hmoves, hgrounds, hcurrent⟩ := h.task t htask
    rw [hrest] at hmoves hgrounds
    rintro _ ⟨⟩
    exact ⟨hrequirement, hnow, hmoves, hgrounds, hcurrent⟩
  | @measure t m next htask hrest =>
    refine ⟨⟨h.stored, ?_⟩, .of_stored rfl⟩
    obtain ⟨hrequirement, hnow, hmoves, hgrounds, hcurrent⟩ := h.task t htask
    rw [hrest] at hmoves hgrounds
    rintro _ ⟨⟩
    exact ⟨hrequirement, hnow, hmoves, hgrounds, hcurrent⟩
  | lost htask hrest reply =>
    refine ⟨⟨h.stored, ?_⟩, .of_stored rfl⟩
    rintro _ ⟨⟩
    exact (h.task _ htask).answered hrest reply
  | @served t n call next htask hrest reply =>
    have ht := h.task t htask
    cases hstored : l.stored with
    | none =>
      rw [hstored] at ht
      refine ⟨⟨fun _ hnone => (nomatch hnone), ?_⟩, fun _ hnone => nomatch hnone⟩
      rintro _ ⟨⟩
      exact ht.answered hrest reply
    | some r =>
      rw [hstored] at ht
      obtain ⟨htask', hafter⟩ := ht.served (h.stored r hstored) hrest reply
      refine ⟨⟨fun r' hr' => (hafter r' hr').1, ?_⟩, fun r' hr' => ⟨r, hstored, (hafter r' hr').2⟩⟩
      rintro _ ⟨⟩
      exact htask'
  | stop => exact ⟨⟨h.stored, fun _ hnone => nomatch hnone⟩, .of_stored rfl⟩
  | @edit r r' hstored hedits =>
    refine ⟨⟨?_, fun t ht => ?_⟩, ?_⟩
    · rintro _ ⟨⟩
      exact (h.stored r hstored).edits hedits
    · exact Task.Proper.stored_edits (hstored ▸ h.task t ht) hedits
    · rintro _ ⟨⟩
      exact ⟨r, hstored, hedits.known ▸ .refl _⟩
  | remove =>
    exact ⟨⟨fun _ hnone => (nomatch hnone), fun t ht => (h.task t ht).stored_none⟩,
      fun _ hnone => nomatch hnone⟩

theorem Proper.runs (h : l.Proper) (hruns : Runs l l') : l'.Proper ∧ l.Continues l' := by
  induction hruns with
  | refl => exact ⟨h, .of_stored rfl⟩
  | tail _ hstep ih =>
    obtain ⟨hproper, hcontinues⟩ := ih
    obtain ⟨hproper', hcontinues'⟩ := hproper.step hstep
    exact ⟨hproper', hcontinues.trans hcontinues'⟩

theorem proper_created {r : Requirement} (hnew : r.status = none) (htimely : r.Timely) :
    (created r).Proper := by
  refine ⟨?_, fun _ hnone => nomatch hnone⟩
  rintro _ ⟨⟩
  exact Requirement.proper_of_new hnew htimely

/-! ### A life up to readiness -/

variable {l₀ : Lifetime} {r : Requirement} {settings : Settings} {occasion : Occasion}
  {past : List Answered}

/-- A reconcile has come to this point of its plan. -/
abbrev Reaches (l₀ : Lifetime) (settings : Settings) (occasion : Occasion) (q : Requirement)
    (stored : Option Requirement) (past : List Answered) (rest : Plan Action) : Prop :=
  ∃ hwithin, Runs l₀ { stored := stored, task := some ⟨settings, occasion, q, past, rest, hwithin⟩ }

theorem Runs.begin (h : Runs l₀ { stored := some r }) (settings : Settings)
    (hnow : occasion.now.Valid) :
    Reaches l₀ settings occasion r (some r) [] (plan settings occasion r) :=
  ⟨plan_within settings occasion r, h.tail (.start settings rfl rfl hnow)⟩

/-- A call takes effect, with a reply of choice. -/
theorem Reaches.answer {q : Requirement} {stored : Option Requirement} {n : String} {call : Call}
    {next : Except Error call.Reply → Plan Action} {rest : Plan Action}
    (h : Reaches l₀ settings occasion q stored past rest) (hrest : rest = .call n call next)
    (reply : Except Error call.Reply) :
    Reaches l₀ settings occasion q (stored.bind (·.after call)) (⟨call, reply⟩ :: past)
      (next reply) := by
  obtain ⟨hwithin, hruns⟩ := h
  let t : Task := ⟨settings, occasion, q, past, rest, hwithin⟩
  have hrest : t.rest = .call n call next := hrest
  have hstep : Step { stored := stored, task := some t }
      { stored := stored.bind (·.after call), task := some (t.answered hrest reply) } :=
    .served rfl hrest reply
  exact ⟨_, hruns.tail hstep⟩

/-- A status is written, and with that the reconcile is over. -/
theorem Reaches.write {q : Requirement} {n name : String} {s : RequirementStatus}
    {next : Except Error Unit → Plan Action} {rest : Plan Action}
    (h : Reaches l₀ settings occasion q (some r) past rest)
    (hrest : rest = .call n (.patchStatus name s) next) :
    Runs l₀ { stored := some (r.withStatus s) } := by
  obtain ⟨_, hruns⟩ := h.answer hrest (.ok ())
  exact hruns.tail .stop

/-- The sample as it is held: the operation of the pool with a reference to it. -/
def heldOperation : Operation :=
  { warmOperation "dev" "key" with
    metadata :=
      { (warmOperation "dev" "key").metadata with
        ownerReferences := some [holderReference sampleRequirement "sample" false] } }

/-- The sample may come to be ready, if it is answered accordingly. -/
theorem sample_ready : ∃ r, Runs (created sampleRequirement) { stored := some r } ∧
    sampleRequirement.Alike r ∧ r.known.phase = .ready ∧ r.known.operationName = some "warm" := by
  have hnow : sampleOccasion.now.Valid := by decide
  have hwritten {r : Requirement} {s : RequirementStatus} (h : sampleRequirement.Alike r)
      (hs : s.Timely) : sampleRequirement.Alike (r.withStatus s) ∧
        (r.withStatus s).known = s.laidOver r.known := by
    have hr := h.timely sampleRequirement_timely
    exact ⟨h.trans (Requirement.alike_withStatus hr hs), Requirement.withStatus_known hr hs⟩
  have hfrom {r : Requirement} {phase : RequirementPhase} (h : sampleRequirement.Alike r)
      (hphase : r.known.phase = phase) : AdvancesFrom r phase :=
    ⟨h.deleting, h.spec ▸ validate_sampleRequirement, hphase⟩
  have hplace {r : Requirement} (h : sampleRequirement.Alike r) :
      r.metadata.namespaceName.isSome := by
    rw [show r.metadata.namespaceName = some "dev" from congrArg Prod.fst h.place]
    rfl
  -- It is taken in, and gets its finalizer.
  obtain ⟨next, hplan, s, next', hwrite, hsearches, -, htimely⟩ :=
    @plan_of_initial {} sampleOccasion sampleRequirement ⟨rfl, validate_sampleRequirement, rfl⟩ rfl
      rfl rfl
  have hs := htimely sampleRequirement_timely.2 hnow
  obtain ⟨halike, hknown⟩ :=
    hwritten (sampleRequirement.alike_takeFinalizer requirementFinalizer) hs
  have hruns := Reaches.write (Reaches.answer (Runs.begin .refl {} hnow) hplan (.ok ())) hwrite
  generalize (sampleRequirement.takeFinalizer requirementFinalizer).withStatus s = r at *
  -- It finds that it holds the operation of the pool.
  obtain ⟨next, hplan, hnext⟩ := @plan_of_cacheChecking {} sampleOccasion r
    (hfrom halike (hknown ▸ hsearches)) (hplace halike) "sample" halike.uid
  obtain ⟨next', hnext, hheld, -⟩ := hnext (warmCache "dev" "key")
  obtain ⟨s', next'', hwrite, -, hoperates, hbound, htimely⟩ :=
    hheld [heldOperation] heldOperation rfl
  have hs' := htimely (halike.timely sampleRequirement_timely).2 hnow
  obtain ⟨halike', hknown'⟩ := hwritten halike hs'
  have hruns := Reaches.write (Reaches.answer (Reaches.answer (Runs.begin hruns {} hnow) hplan
    (.ok (some (warmCache "dev" "key")))) hnext (.ok [heldOperation])) hwrite
  generalize r.withStatus s' = r' at *
  -- It looks at that operation, which is ready.
  obtain ⟨next, hplan, s'', next', hwrite, hready, hbound', htimely⟩ :=
    @plan_of_operating {} sampleOccasion r' (hfrom halike' (hknown' ▸ hoperates)) (hplace halike')
      "sample" heldOperation.name halike'.uid (hknown' ▸ hbound) heldOperation rfl rfl
  have hs'' := htimely (halike'.timely sampleRequirement_timely).2 hnow
  obtain ⟨halike'', hknown''⟩ := hwritten halike' hs''
  have hruns := Reaches.write (Reaches.answer (Runs.begin hruns {} hnow) hplan
    (.ok (some heldOperation))) hwrite
  exact ⟨_, hruns, halike'', hknown'' ▸ hready, hknown'' ▸ hbound'⟩

end Lifetime

/-! ### The whole life -/

/--
From a requirement without a status on, whatever its reconciles are answered and however it is
edited and deleted meanwhile, every status stored is coherent, and goes on from all before it.
-/
theorem status_coherent {r₀ : Requirement} (hnew : r₀.status = none) (htimely : r₀.Timely)
    {l l' : Lifetime} (h : Lifetime.Runs (.created r₀) l) (h' : Lifetime.Runs l l') :
    (∀ r, l.stored = some r → r.known.Coherent) ∧
      ∀ r r', l.stored = some r → l'.stored = some r' → r.known.Evolves r'.known := by
  have hproper := ((Lifetime.proper_created hnew htimely).runs h).1
  refine ⟨fun r hr => (hproper.stored r hr).coherent, fun r r' hr hr' => ?_⟩
  obtain ⟨r'', hr'', hevolves⟩ := (hproper.runs h').2 r' hr'
  cases hr.symm.trans hr''
  exact hevolves

/-- The sample is ready at some time, coherently. -/
theorem status_coherent_sample : ∃ r, sampleRequirement.status = none ∧
    sampleRequirement.Timely ∧ Lifetime.Runs (.created sampleRequirement) { stored := some r } ∧
    r.known.phase = .ready ∧ r.known.Coherent ∧ sampleRequirement.known.Evolves r.known := by
  obtain ⟨r, hruns, -, hready, -⟩ := Lifetime.sample_ready
  have hcoherent := (status_coherent rfl sampleRequirement_timely hruns .refl).1 r rfl
  have hevolves := (status_coherent rfl sampleRequirement_timely .refl hruns).2 _ r rfl rfl
  exact ⟨r, rfl, sampleRequirement_timely, hruns, hready, hcoherent, hevolves⟩

end WarmPool
