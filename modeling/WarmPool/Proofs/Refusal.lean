import WarmPool.Proofs.Rest
import WarmPool.Proofs.Replies
import WarmPool.Proofs.Stock
import WarmPool.Proofs.Transitions

/-!
# What a wrong specification comes to

A requirement with a wrong specification is reported and left alone, whatever its phase and its
status are (`Reconcile.invalid_only_reported`). All that a reconcile may call for is one write of a
status in which the blame is new and the rest is as it was (`Refusal`), and once that is stored no
reconcile calls for anything (`Quiet`), since the blame is worded the same each time and keeps its
time.
-/

namespace WarmPool

/-! ### One entry in a list of conditions -/

/-- The second list is the first one with this entry for the first of its type, or at the end. -/
inductive Conditions.Replaces (entry : Condition) : List Condition → List Condition → Prop
  | inPlace (front back : List Condition) (old : Condition)
      (hfront : ∀ c ∈ front, c.type ≠ entry.type) (hold : old.type = entry.type) :
      Replaces entry (front ++ old :: back) (front ++ entry :: back)
  | atEnd (before : List Condition) (h : ∀ c ∈ before, c.type ≠ entry.type) :
      Replaces entry before (before ++ [entry])

/-- An update puts one entry into the list, which says what was to be said. -/
theorem Conditions.exists_replaces (conditions : List Condition) (c : Condition) :
    ∃ entry : Condition, entry.type = c.type ∧ entry.status = c.status ∧
      entry.reason = c.reason ∧ entry.message = c.message ∧
      Replaces entry conditions (set conditions c) := by
  induction conditions with
  | nil =>
    have hnone : ∀ d ∈ ([] : List Condition), d.type ≠ c.type := fun d hd => nomatch hd
    exact ⟨c, rfl, rfl, rfl, rfl, .atEnd [] hnone⟩
  | cons first rest ih =>
    rw [set]
    by_cases hfirst : first.type = c.type
    · rw [if_pos hfirst]
      have htype : (update first c).type = c.type := type_update first c
      have htold : (update first c).reason = c.reason ∧ (update first c).message = c.message := by
        unfold update
        split
        · exact ⟨rfl, rfl⟩
        · exact ⟨rfl, rfl⟩
      have hnone : ∀ d ∈ ([] : List Condition), d.type ≠ (update first c).type :=
        fun d hd => nomatch hd
      exact ⟨update first c, htype, status_update first c, htold.1, htold.2,
        .inPlace [] rest first hnone (hfirst.trans htype.symm)⟩
    · rw [if_neg hfirst]
      obtain ⟨entry, htype, hstatus, hreason, hmessage, hreplaces⟩ := ih
      refine ⟨entry, htype, hstatus, hreason, hmessage, ?_⟩
      have hne : first.type ≠ entry.type := fun heq => hfirst (heq.trans htype)
      -- The entry in front is of another type, so it may stand in front of either list.
      generalize set rest c = after at hreplaces
      cases hreplaces with
      | inPlace front back old hfront hold =>
        refine .inPlace (first :: front) back old ?_ hold
        exact List.forall_mem_cons.2 ⟨hne, hfront⟩
      | atEnd before h => exact .atEnd (first :: rest) (List.forall_mem_cons.2 ⟨hne, h⟩)

namespace Reconcile

open RequirementStatus

variable {settings : Settings} {occasion : Occasion} {r : Requirement} {e : Error}

/-- The status of the requirement, but for what the error is blamed with and the generation. -/
structure Refusal (r : Requirement) (e : Error) (s : RequirementStatus) : Prop where
  phase : s.phase = r.known.phase
  key : s.key = r.known.key
  operationName : s.operationName = r.known.operationName
  observedGeneration : s.observedGeneration = r.metadata.generation
  conditions : ∃ entry : Condition, entry.type = initializedType ∧ entry.status = .false ∧
    entry.reason = "InvalidSpec" ∧ entry.message = (e.forResource r.name).message ∧
    Conditions.Replaces entry r.known.conditions s.conditions

/-- No reconcile calls for anything, whenever it takes place. -/
def Quiet (r : Requirement) : Prop :=
  ∀ settings occasion, plan settings occasion r = .done (.ok .awaitChange)

theorem refusal_refused (r : Requirement) (e : Error) (now : Timestamp) :
    Refusal r e (observed r (refused r e now)) where
  phase := rfl
  key := rfl
  operationName := rfl
  observedGeneration := rfl
  conditions :=
    Conditions.exists_replaces r.known.conditions
      ⟨initializedType, .false, "InvalidSpec", (e.forResource r.name).message, now⟩

/-- A requirement that says what is wrong with it, for its generation, is left alone. -/
theorem quiet_of_says (hplace : r.metadata.namespaceName.isSome) (hkept : r.isDeleting = false)
    (hspec : r.spec.validate = .error e) (hsettled : r.Settled)
    (htold : r.known.Says initializedType .false "InvalidSpec" (e.forResource r.name).message) :
    Quiet r := by
  intro settings occasion
  have hsame : r.known.invalidSpec (e.forResource r.name).message occasion.now = r.known :=
    htold occasion.now
  have hcommit : commit r r.known = pure false := by
    unfold commit
    exact if_pos hsettled
  rw [plan_of_invalid hkept hspec hplace]
  unfold reportInvalid
  rw [hsame, hcommit]
  rfl

/-- A refusal that is stored as it is leaves nothing to call for. -/
theorem quiet_of_refused {now : Timestamp} {r' : Requirement}
    (hplace : r'.metadata.namespaceName.isSome) (hkept : r'.isDeleting = false)
    (hspec : r'.spec.validate = .error e) (hname : r'.name = r.name)
    (hgeneration : r'.metadata.generation = r.metadata.generation)
    (hstatus : r'.status = some (observed r (refused r e now))) : Quiet r' := by
  have hknown : r'.known = observed r (refused r e now) := Requirement.known_of_status hstatus
  have hsettled : r'.Settled := by
    unfold Requirement.Settled
    rw [hstatus, hknown]
    unfold observed
    rw [hgeneration]
  have htold : r'.known.Says initializedType .false "InvalidSpec"
      (e.forResource r'.name).message := by
    rw [hknown, hname]
    exact (says_withCondition r.known _ _ _ _ now).of_conditions rfl
  exact quiet_of_says hplace hkept hspec hsettled htold

/-- With a generation the refusal is stored as it is written. -/
theorem withStatus_refused (hr : r.Timely) {now : Timestamp} (hnow : now.Valid)
    (hgeneration : r.metadata.generation.isSome) :
    r.withStatus (observed r (refused r e now)) =
      ⟨r.metadata.reread, r.spec, some (observed r (refused r e now))⟩ := by
  have hs : (observed r (refused r e now)).Timely := hr.2.withCondition hnow _ _ _ _
  have hlaid : (observed r (refused r e now)).laidOver r.known =
      observed r (refused r e now) := by
    obtain ⟨generation, hgeneration⟩ := Option.isSome_iff_exists.1 hgeneration
    have hkey : (observed r (refused r e now)).key.or r.known.key =
        (observed r (refused r e now)).key := Option.or_self
    unfold laidOver
    rw [hkey]
    unfold observed
    rw [hgeneration]
    rfl
  rw [Requirement.withStatus_eq hr.1 hs, hlaid]

/--
A wrong specification is reported and nothing else. Either no reconcile calls for anything at all,
or this one calls for one write of a status that is a refusal, ends after whatever reply, and
awaits a change where the write was done. If the requirement has a generation, then no reconcile of
what is stored under its name afterwards calls for anything.
-/
theorem invalid_only_reported (settings : Settings) (occasion : Occasion)
    (hplace : r.metadata.namespaceName.isSome) (hkept : r.isDeleting = false)
    (hspec : r.spec.validate = .error e) :
    Quiet r ∨ ∃ s next,
      plan settings occasion r = .call r.namespaceName (.patchStatus r.name s) next ∧
      Refusal r e s ∧
      (∀ reply, (next reply).ComesTo [] (.done (reply.map fun _ => .awaitChange))) ∧
      (r.metadata.generation.isSome → occasion.now.Valid →
        ∀ (c : Cluster) (namespaceName : String), c.Stores namespaceName r → ∃ c' r',
          Cluster.serve namespaceName c c (.patchStatus r.name s) = (.ok (), c') ∧
          c'.Stores namespaceName r' ∧ c'.requirement? namespaceName r.name = some r' ∧
          Quiet r') := by
  by_cases hsame : r.status = some (observed r (refused r e occasion.now))
  · exact .inl (quiet_of_refused hplace hkept hspec rfl rfl hsame)
  · have hcommit : commit r (refused r e occasion.now) =
        Plan.ask r.namespaceName (.patchStatus r.name (observed r (refused r e occasion.now))) >>=
          fun _ => pure true := if_neg hsame
    have hplan := @plan_of_invalid settings occasion r hkept e hspec hplace
    unfold reportInvalid at hplan
    rw [show r.known.invalidSpec (e.forResource r.name).message occasion.now =
      refused r e occasion.now from rfl, hcommit] at hplan
    refine .inr ⟨_, _, hplan, refusal_refused r e occasion.now, fun reply => ?_, ?_⟩
    · cases reply with
      | error failure => exact .here
      | ok done => exact .event .here
    · intro hgeneration hnow c namespaceName hstores
      have hr : r.Timely := hstores.requirement_timely
      have hs : (observed r (refused r e occasion.now)).Timely :=
        hr.2.withCondition hnow _ _ _ _
      have hstored := hstores.patchStatus hs
      refine ⟨_, _, Prod.ext (Cluster.patchStatus_ok hstores.stored _) rfl, hstored,
        hstored.of_alike (Requirement.alike_withStatus hr hs) hstores.isAt, ?_⟩
      rw [withStatus_refused hr hnow hgeneration]
      have hkept' : (r.metadata.deletionTimestamp.map Timestamp.whole).isSome = false := by
        rw [Option.isSome_map]
        exact hkept
      exact quiet_of_refused (r := r) hplace hkept' hspec rfl rfl rfl

/-- A bound requirement that was ready, whose template has just lost its applications. -/
def emptiedRequirement : Requirement where
  metadata := { sampleRequirement.metadata with generation := some 2 }
  spec := { template := {}, enableCache := true }
  status := some
    { phase := .ready
      key := some "key"
      operationName := some "warm"
      conditions := [⟨readyType, .true, "OperationReady", "warm is Ready", sampleOccasion.now⟩]
      observedGeneration := some 1 }

theorem emptiedRequirement_timely : emptiedRequirement.Timely := by
  refine ⟨sampleRequirement_timely.1, fun c hc => ?_⟩
  rw [List.mem_singleton.1 hc]
  decide

/-- The blame is written, the binding stays, and nothing is done about it any more. -/
theorem invalid_only_reported_emptied : ∃ e s next c' r',
    emptiedRequirement.metadata.namespaceName.isSome ∧ emptiedRequirement.isDeleting = false ∧
      emptiedRequirement.spec.validate = .error e ∧
      plan {} sampleOccasion emptiedRequirement = .call "dev" (.patchStatus "sample" s) next ∧
      s.operationName = some "warm" ∧ s.phase = .ready ∧
      Cluster.serve "dev" { requirements := [emptiedRequirement] }
        { requirements := [emptiedRequirement] } (.patchStatus "sample" s) = (.ok (), c') ∧
      c'.requirement? "dev" "sample" = some r' ∧ Quiet r' := by
  have hplace : emptiedRequirement.metadata.namespaceName.isSome := rfl
  have hspec : emptiedRequirement.spec.validate =
      .error (.invalidField "spec.template.applications"
        "template must contain at least one application") := by decide
  have hnow : sampleOccasion.now.Valid := by decide
  have hat : emptiedRequirement.metadata.isAt "dev" "sample" = true := by decide
  have hstores : Cluster.Stores { requirements := [emptiedRequirement] } "dev" emptiedRequirement :=
    .of_only rfl hat emptiedRequirement_timely
  rcases invalid_only_reported {} sampleOccasion hplace rfl hspec with hquiet | hwrites
  · -- It is not left alone: the blame is not there yet.
    have hdone := hquiet {} sampleOccasion
    cases hdone
  · obtain ⟨s, next, hplan, hrefusal, -, hstored⟩ := hwrites
    obtain ⟨c', r', hserve, -, hstored', hquiet⟩ := hstored rfl hnow _ "dev" hstores
    exact ⟨_, s, next, c', r', hplace, rfl, hspec, hplan, hrefusal.operationName, hrefusal.phase,
      hserve, hstored', hquiet⟩

end Reconcile

end WarmPool
