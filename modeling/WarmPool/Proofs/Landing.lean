import WarmPool.Proofs.Report
import WarmPool.Proofs.Stock

/-!
# A status lands as it was written

A status is stored by merge patch, which keeps what the patch leaves out. Of the fields that a
status may lack, a reconcile never gives up the key (`Reports.key_of_known`) and writes the
generation whenever the requirement has one, and an operation that is no longer bound is written as
null. So what is stored is exactly what was written (`status_lands`), and writing it again is
writing nothing.
-/

namespace WarmPool

/-- A status that has the key and the generation wherever the one before it has them. -/
theorem RequirementStatus.laidOver_eq_self {s before : RequirementStatus}
    (hkey : before.key.isSome → s.key.isSome)
    (hgeneration : before.observedGeneration.isSome → s.observedGeneration.isSome) :
    s.laidOver before = s := by
  have hor {α : Type} {a b : Option α} (h : b.isSome → a.isSome) : a.or b = a := by
    cases a with
    | some _ => rfl
    | none =>
      cases b with
      | none => rfl
      | some _ => exact absurd (h rfl) Bool.noConfusion
  unfold laidOver
  rw [hor hkey, hor hgeneration]

namespace Reconcile

variable {settings : Settings} {occasion : Occasion} {r : Requirement} {past : List Answered}
  {s : RequirementStatus}

/-- No report gives up a key that is stored. -/
theorem Reports.key_of_known (h : Reports occasion r past s) (hkey : r.known.key.isSome) :
    s.key.isSome := by
  cases h with
  | taken _ =>
    unfold intake
    split
    · rfl
    · exact hkey
  | made _ _ | waiting _ _ _ _ | bound _ _ _ => rfl
  | _ => exact hkey

/--
Laid over a requirement, the status is stored as it is and the specification stays; and what wrote
it has nothing left to write.
-/
def Lands (r : Requirement) (s : RequirementStatus) : Prop :=
  ∃ r', Requirement.decode? (r.encode.merge (.object [("status", s.encode)])) = some r' ∧
    r'.status = some s ∧ r'.spec = r.spec ∧ ∀ s', observed r s' = s → commit r' s' = pure false

/-- A report lands if the requirement has a generation. -/
theorem Reports.lands (h : Reports occasion r past s) (htimely : r.metadata.Timely)
    (hs : s.Timely) (hgeneration : r.metadata.generation.isSome) : Lands r (observed r s) := by
  have hself : (observed r s).laidOver r.known = observed r s :=
    RequirementStatus.laidOver_eq_self h.key_of_known fun _ => hgeneration
  refine ⟨_, Requirement.decode?_merge_status htimely hs, congrArg some hself, rfl, ?_⟩
  intro s' hsame
  -- The generation is read back with the metadata, so the same status would be written.
  have hstored : some ((observed r s).laidOver r.known) =
      some (observed ⟨r.metadata.reread, r.spec, some ((observed r s).laidOver r.known)⟩ s') := by
    rw [hself]
    exact congrArg some hsame.symm
  unfold commit
  exact if_pos hstored

/--
Every status that a reconcile writes, whatever it is answered and whatever the requirement had
before, is stored as it was written once it is merged into the requirement; the specification stays,
and to commit the same status to what is stored writes nothing.
-/
theorem status_lands (settings : Settings) {occasion : Occasion} {r : Requirement}
    (htimely : r.Timely) (hnow : occasion.now.Valid)
    (hgeneration : r.metadata.generation.isSome) :
    (plan settings occasion r).Obeys
      (fun _ call => ∀ name s, call = .patchStatus name s → name = r.name ∧ Lands r s) [] := by
  refine ((plan_obeys settings occasion r).and (plan_grounds settings occasion r)).mono ?_
  rintro past call - ⟨hmove, hgrounds⟩ name s rfl
  obtain ⟨hname, -, -, hs⟩ := hmove.patchStatus_cases
  obtain ⟨s', rfl, hreports⟩ := hgrounds
  exact ⟨hname, hreports.lands htimely.1 (hs htimely.2 hnow) hgeneration⟩

/-- The sample bound to an operation, which shows as ready. -/
def boundRequirement : Requirement :=
  { searchingRequirement (some "key") with
    metadata := { (searchingRequirement none).metadata with generation := some 2 }
    status := some
      { phase := .ready
        key := some "key"
        operationName := some "warm"
        conditions := [⟨RequirementStatus.readyType, .true, "OperationReady", "warm is Ready",
          sampleOccasion.now⟩]
        observedGeneration := some 1 } }

theorem boundRequirement_timely : boundRequirement.Timely := by
  refine ⟨sampleRequirement_timely.1, fun c hc => ?_⟩
  rw [List.mem_singleton.1 hc]
  decide

/-- The operation of the sample was deleted: it is unbound by what is written then, and lands so. -/
theorem status_lands_sample : boundRequirement.Timely ∧ sampleOccasion.now.Valid ∧
    boundRequirement.metadata.generation.isSome ∧ ∃ next name s next',
      plan {} sampleOccasion boundRequirement = .call "dev" (.getOperation "warm") next ∧
      next (.ok none) = .call "dev" (.patchStatus name s) next' ∧
      boundRequirement.known.operationName = some "warm" ∧ s.operationName = none ∧
      Lands boundRequirement s := by
  have hnow : sampleOccasion.now.Valid := by decide
  have hobeys := status_lands {} boundRequirement_timely hnow rfl
  obtain ⟨next, hplan⟩ : ∃ next,
      plan {} sampleOccasion boundRequirement = .call "dev" (.getOperation "warm") next := ⟨_, rfl⟩
  obtain ⟨s, next', hnext, hunbound⟩ : ∃ s next',
      next (.ok none) = .call "dev" (.patchStatus boundRequirement.name s) next' ∧
        s.operationName = none := by
    cases hplan
    exact ⟨_, _, rfl, rfl⟩
  rw [hplan] at hobeys
  have hrest := hobeys.2 (.ok none)
  rw [hnext] at hrest
  exact ⟨boundRequirement_timely, hnow, rfl, next, _, s, next', hplan, hnext, rfl, hunbound,
    (hrest.1 _ s rfl).2⟩

end Reconcile

end WarmPool
