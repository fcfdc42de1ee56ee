import WarmPool.Cluster
import WarmPool.Proofs.Encoding

/-!
# Writing a status

A status is stored by laying it over the one before as JSON and reading the result. If the instants
are valid, this keeps the specification, rereads the metadata and stores the status written, except
that a key and a generation that it lacks stay as they were (`Requirement.withStatus_eq`).
-/

namespace WarmPool

open Json

/-! ### Valid instants -/

/-- All instants in the status are valid. -/
def RequirementStatus.Timely (s : RequirementStatus) : Prop :=
  ∀ c ∈ s.conditions, c.lastTransitionTime.Valid

namespace Requirement

/-- What is known of the requirement, nothing before there is a status. -/
def known (r : Requirement) : RequirementStatus := r.status.getD {}

theorem known_of_status {r : Requirement} {s : RequirementStatus} (h : r.status = some s) :
    r.known = s := by
  unfold known
  rw [h]
  rfl

theorem known_of_new {r : Requirement} (h : r.status = none) : r.known = {} := by
  unfold known
  rw [h]
  rfl

theorem known_congr {r r' : Requirement} (h : r'.status = r.status) : r'.known = r.known := by
  unfold known
  rw [h]

theorem phase_eq (r : Requirement) : r.phase = r.known.phase := by
  unfold phase known
  cases r.status with
  | none => rfl
  | some s => rfl

/-- All instants in the requirement are valid. -/
def Timely (r : Requirement) : Prop := r.metadata.Timely ∧ r.known.Timely

end Requirement

/-! ### Statuses over each other -/

namespace RequirementStatus

/-- What is stored when this status is laid over another: the key and the generation may stay. -/
def laidOver (s before : RequirementStatus) : RequirementStatus :=
  { s with
    key := s.key.or before.key
    observedGeneration := s.observedGeneration.or before.observedGeneration }

@[simp] theorem laidOver_phase (s before : RequirementStatus) :
    (s.laidOver before).phase = s.phase := rfl

@[simp] theorem laidOver_key (s before : RequirementStatus) :
    (s.laidOver before).key = s.key.or before.key := rfl

theorem Timely.laidOver {s : RequirementStatus} (h : s.Timely) (before : RequirementStatus) :
    (s.laidOver before).Timely := h

/-- The fields of a status written. -/
def fields (s : RequirementStatus) : List (String × Json) :=
  [stringField "phase" s.phase.name] ++ optionalField "cacheKey" Json.string s.key ++
    [("operationName", ofString? s.operationName),
      ("conditions", .array (s.conditions.map Condition.encode))] ++
    optionalField "observedGeneration" ofInt64 s.observedGeneration

theorem encode_eq (s : RequirementStatus) : s.encode = .object s.fields := rfl

theorem nodup_fields (s : RequirementStatus) : (s.fields.map Prod.fst).Nodup := by
  unfold fields stringField
  cases s.key <;> cases s.observedGeneration <;> simp [optionalField]

/-- A status laid over the fields of another reads back as the one over the other. -/
theorem decode?_mergeFields {s before : RequirementStatus} {target : List (String × Json)}
    (hs : s.Timely) (hkey : lookup? "cacheKey" target = before.key.map Json.string)
    (hgeneration : lookup? "observedGeneration" target = before.observedGeneration.map ofInt64) :
    decode? (.object (mergeFields target s.fields)) = some (s.laidOver before) := by
  have hlookup (key : String) := lookup?_mergeFields key s.nodup_fields target
  have hphase : toChoice? RequirementPhase.names (.string s.phase.name) = some s.phase := by
    cases s.phase <;> rfl
  have hconditions : toList? Condition.decode? (.array (s.conditions.map Condition.encode)) =
      some (s.conditions.map id) := toList?_map fun c hc => Condition.decode?_encode (hs c hc)
  rw [List.map_id] at hconditions
  have hnumber (n : Int64) (v : Option Json) : patched v (ofInt64 n) = some (ofInt64 n) := by
    obtain ⟨x, hx⟩ := ofInt64_eq n
    rw [hx]
    rfl
  -- Field by field: what the patch names is read from it, and the rest from the status before.
  unfold decode?
  refine Option.bind_eq_some_iff.2 ⟨_, rfl, ?_⟩
  refine Option.bind_eq_some_iff.2 ⟨s.phase, defaulted?_eq ?_ hphase, ?_⟩
  · rw [hlookup]
    rfl
  refine Option.bind_eq_some_iff.2 ⟨s.key.or before.key, optional?_text ?_, ?_⟩
  · have hfield : lookup? "cacheKey" s.fields = s.key.map Json.string := by
      simp [fields, stringField, lookup?_append]
    rw [hlookup, hfield, hkey]
    cases s.key <;> rfl
  refine Option.bind_eq_some_iff.2 ⟨s.operationName, optional?_text ?_, ?_⟩
  · have hfield : lookup? "operationName" s.fields = some (ofString? s.operationName) := by
      simp [fields, stringField, lookup?_append]
    rw [hlookup, hfield]
    cases s.operationName <;> rfl
  refine Option.bind_eq_some_iff.2 ⟨s.conditions, defaulted?_eq ?_ hconditions, ?_⟩
  · have hfield : lookup? "conditions" s.fields =
        some (.array (s.conditions.map Condition.encode)) := by
      simp [fields, stringField, lookup?_append]
    rw [hlookup, hfield]
    rfl
  have hfield : lookup? "observedGeneration" s.fields = s.observedGeneration.map ofInt64 := by
    simp [fields, stringField, lookup?_append]
  refine Option.bind_eq_some_iff.2
    ⟨s.observedGeneration.or before.observedGeneration, optional?_int64 ?_, rfl⟩
  rw [hlookup, hfield, hgeneration]
  cases hs : s.observedGeneration with
  | none => rfl
  | some n => exact hnumber n _

end RequirementStatus

/-! ### Requirements with a status -/

namespace Requirement

/--
A status laid over a requirement as a merge patch: the metadata is read again, the specification
stays, and the status is the one written over what was known.
-/
theorem decode?_merge_status {r : Requirement} {s : RequirementStatus} (hr : r.metadata.Timely)
    (hs : s.Timely) :
    decode? (r.encode.merge (.object [("status", s.encode)])) =
      some ⟨r.metadata.reread, r.spec, some (s.laidOver r.known)⟩ := by
  let fields := [stringField "apiVersion" apiVersion, stringField "kind" Kind.requirement.name,
      ("metadata", r.metadata.encode), ("spec", r.spec.encode)] ++
    optionalField "status" id (r.status.map RequirementStatus.encode)
  let before := ((r.status.map RequirementStatus.encode).getD .null).fieldsOf
  have hnodup : ([("status", s.encode)].map Prod.fst).Nodup := by simp
  have hlookup (key : String) := lookup?_mergeFields key hnodup fields
  have hkey : lookup? "cacheKey" before = r.known.key.map Json.string := by
    unfold before known
    cases r.status with
    | none => rfl
    | some t => simp [RequirementStatus.encode_eq, RequirementStatus.fields, fieldsOf,
        lookup?_append, stringField]
  have hgeneration :
      lookup? "observedGeneration" before = r.known.observedGeneration.map ofInt64 := by
    unfold before known
    cases r.status with
    | none => rfl
    | some t => simp [RequirementStatus.encode_eq, RequirementStatus.fields, fieldsOf,
        lookup?_append, stringField]
  -- The status is merged as an object, and every other field stays.
  have hstatus : lookup? "status" (mergeFields fields [("status", s.encode)]) =
      some (.object (mergeFields before s.fields)) := by
    have hfield : lookup? "status" fields = r.status.map RequirementStatus.encode := by
      simp [fields, stringField]
    rw [hlookup, hfield]
    rfl
  have hread := RequirementStatus.decode?_mergeFields hs hkey hgeneration
  unfold decode? Resource.decode?
  refine Option.map_eq_some_iff.2 ⟨(r.metadata.reread, r.spec, some (s.laidOver r.known)), ?_, rfl⟩
  refine Option.bind_eq_some_iff.2 ⟨mergeFields fields [("status", s.encode)], rfl, ?_⟩
  refine Option.bind_eq_some_iff.2 ⟨_, required?_eq ?_ (Metadata.decode?_encode hr), ?_⟩
  · rw [hlookup]
    rfl
  refine Option.bind_eq_some_iff.2 ⟨_, required?_eq ?_ r.spec.decode?_encode, ?_⟩
  · rw [hlookup]
    rfl
  refine Option.bind_eq_some_iff.2 ⟨some (s.laidOver r.known), ?_, rfl⟩
  unfold optional?
  rw [hstatus]
  exact congrArg (Option.map some) hread

/-- What is stored when a status is written. -/
theorem withStatus_eq {r : Requirement} {s : RequirementStatus} (hr : r.metadata.Timely)
    (hs : s.Timely) :
    r.withStatus s = ⟨r.metadata.reread, r.spec, some (s.laidOver r.known)⟩ := by
  unfold withStatus
  rw [decode?_merge_status hr hs, Option.getD_some]

end Requirement

end WarmPool
