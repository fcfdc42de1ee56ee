import WarmPool.Proofs.Json.Field
import WarmPool.Proofs.Timestamp
import WarmPool.Requirement

/-!
# Objects read back

What is written as JSON reads back: templates and specifications as they were
(`Template.decode?_encode`, `RequirementSpec.decode?_encode`), conditions if their times are valid
(`Condition.decode?_encode`), and metadata without the fractions of its instants
(`Metadata.decode?_encode`), which `Metadata.reread` describes.
-/

namespace WarmPool

open Json

/-! ### Templates -/

@[simp] theorem JobTemplate.decode?_encode (j : JobTemplate) :
    JobTemplate.decode? j.encode = some j := by
  unfold JobTemplate.decode? JobTemplate.encode
  have henv : j.env.isEmpty = true → StringMap.empty = j.env := by
    obtain ⟨image, command, args, ⟨entries, sorted⟩, backoffLimit, activeDeadlineSeconds⟩ := j
    cases entries with
    | nil => exact fun _ => rfl
    | cons e entries => exact fun h => absurd h Bool.noConfusion
  refine Option.bind_eq_some_iff.2 ⟨_, rfl, ?_⟩
  refine Option.bind_eq_some_iff.2 ⟨j.image, required?_eq (v := .string j.image) ?_ rfl, ?_⟩
  · simp [stringField]
  refine Option.bind_eq_some_iff.2 ⟨j.command,
    defaulted?_eq_of_ite (p := j.command = []) ?_ (toStrings?_ofStrings _) Eq.symm, ?_⟩
  · simp [lookup?_append, stringField]
  refine Option.bind_eq_some_iff.2 ⟨j.args,
    defaulted?_eq_of_ite (p := j.args = []) ?_ (toStrings?_ofStrings _) Eq.symm, ?_⟩
  · simp [lookup?_append, stringField]
  refine Option.bind_eq_some_iff.2 ⟨j.env,
    defaulted?_eq_of_ite ?_ (toStringMap?_ofStringMap _) henv, ?_⟩
  · simp [lookup?_append, stringField]
  refine Option.bind_eq_some_iff.2 ⟨j.backoffLimit, optional?_eq_self ?_
    (fun n _ => toInt32?_ofInt32 n) (fun n _ => ofInt32_ne_null n), ?_⟩
  · simp [lookup?_append, stringField]
  refine Option.bind_eq_some_iff.2 ⟨j.activeDeadlineSeconds, optional?_int64 ?_, rfl⟩
  simp [lookup?_append, stringField]

theorem JobTemplate.encode_ne_null (j : JobTemplate) : j.encode ≠ .null := Json.noConfusion

@[simp] theorem Application.decode?_encode (a : Application) :
    Application.decode? a.encode = some a := by
  unfold Application.decode? Application.encode
  refine Option.bind_eq_some_iff.2 ⟨_, rfl, ?_⟩
  refine Option.bind_eq_some_iff.2 ⟨a.name, required?_eq (v := .string a.name) ?_ rfl, ?_⟩
  · simp [stringField]
  refine Option.bind_eq_some_iff.2 ⟨a.provision, required?_eq ?_ a.provision.decode?_encode, ?_⟩
  · simp [stringField]
  refine Option.bind_eq_some_iff.2 ⟨a.teardown, optional?_eq_self ?_
    (fun j _ => j.decode?_encode) (fun j _ => j.encode_ne_null), rfl⟩
  simp [stringField]

@[simp] theorem Template.decode?_encode (t : Template) : Template.decode? t.encode = some t := by
  have hlist : toList? Application.decode? (.array (t.applications.map Application.encode)) =
      some (t.applications.map id) := toList?_map fun a _ => a.decode?_encode
  rw [List.map_id] at hlist
  unfold Template.decode? Template.encode
  refine Option.bind_eq_some_iff.2 ⟨_, rfl, ?_⟩
  exact Option.bind_eq_some_iff.2 ⟨t.applications, defaulted?_eq rfl hlist, rfl⟩

/-! ### Specifications -/

@[simp] theorem CacheSizing.decode?_encode (s : CacheSizing) :
    CacheSizing.decode? s.encode = some s := by
  unfold CacheSizing.decode? CacheSizing.encode
  refine Option.bind_eq_some_iff.2 ⟨_, rfl, ?_⟩
  refine Option.bind_eq_some_iff.2 ⟨s.keepAliveCount, optional?_eq_self ?_
    (fun n _ => toUInt32?_ofUInt32 n) (fun n _ => ofUInt32_ne_null n), ?_⟩
  · simp [lookup?_append]
  refine Option.bind_eq_some_iff.2 ⟨s.keepAliveDuration, optional?_text ?_, rfl⟩
  simp [lookup?_append]

@[simp] theorem RequirementSpec.decode?_encode (s : RequirementSpec) :
    RequirementSpec.decode? s.encode = some s := by
  unfold RequirementSpec.decode? RequirementSpec.encode
  refine Option.bind_eq_some_iff.2 ⟨_, rfl, ?_⟩
  refine Option.bind_eq_some_iff.2 ⟨s.template, required?_eq ?_ s.template.decode?_encode, ?_⟩
  · simp
  refine Option.bind_eq_some_iff.2 ⟨s.enableCache,
    defaulted?_eq (v := .bool s.enableCache) ?_ rfl, ?_⟩
  · simp
  refine Option.bind_eq_some_iff.2 ⟨s.cacheSpec, optional?_eq_self ?_
    (fun c _ => c.decode?_encode) (fun _ _ => Json.noConfusion), rfl⟩
  simp

/-! ### Metadata -/

@[simp] theorem OwnerReference.decode?_encode (r : OwnerReference) :
    OwnerReference.decode? r.encode = some r := by
  unfold OwnerReference.decode? OwnerReference.encode
  have htext {key : String} {fields : List (String × Json)} {text : String}
      (h : lookup? key fields = some (.string text)) :
      (optional? toString? key fields).map (·.getD "") = some text := by
    have hread : optional? toString? key fields = some (some text) := optional?_text h
    rw [hread]
    rfl
  have hbool : ∀ b : Bool, toBool? (.bool b) = some b := fun _ => rfl
  refine Option.bind_eq_some_iff.2 ⟨_, rfl, ?_⟩
  refine Option.bind_eq_some_iff.2 ⟨r.apiVersion, htext ?_, ?_⟩
  · simp [stringField]
  refine Option.bind_eq_some_iff.2 ⟨r.kind, htext ?_, ?_⟩
  · simp [lookup?_append, stringField]
  refine Option.bind_eq_some_iff.2 ⟨r.name, htext ?_, ?_⟩
  · simp [lookup?_append, stringField]
  refine Option.bind_eq_some_iff.2 ⟨r.uid, htext ?_, ?_⟩
  · simp [lookup?_append, stringField]
  refine Option.bind_eq_some_iff.2 ⟨r.controller, optional?_eq_self ?_
    (fun b _ => hbool b) (fun _ _ => Json.noConfusion), ?_⟩
  · simp [lookup?_append, stringField]
  refine Option.bind_eq_some_iff.2 ⟨r.blockOwnerDeletion, optional?_eq_self ?_
    (fun b _ => hbool b) (fun _ _ => Json.noConfusion), rfl⟩
  simp [lookup?_append, stringField]

/-- The entry as it reads back: a null in place of the fields is none, the time is whole. -/
def ManagedFields.reread (m : ManagedFields) : ManagedFields :=
  { m with
    fieldsV1 := m.fieldsV1.filter (· ≠ .null)
    time := m.time.map Timestamp.whole }

/-- Instants of whole seconds read back if they are valid. -/
theorem optional?_wholeText {key : String} {fields : List (String × Json)} {t : Option Timestamp}
    (h : lookup? key fields = t.map fun t => Json.string t.wholeText) (ht : ∀ s ∈ t, s.Valid) :
    optional? toTimestamp? key fields = some (t.map Timestamp.whole) :=
  optional?_eq h (fun s hs => Timestamp.parse?_wholeText (ht s hs)) fun _ _ => Json.noConfusion

theorem ManagedFields.decode?_encode {m : ManagedFields} (h : ∀ t ∈ m.time, t.Valid) :
    ManagedFields.decode? m.encode = some m.reread := by
  have hfields {key : String} {fields : List (String × Json)}
      (h : lookup? key fields = m.fieldsV1) :
      optional? some key fields = some (m.fieldsV1.filter (· ≠ .null)) := by
    unfold optional?
    rw [h]
    cases m.fieldsV1 with
    | none => rfl
    | some v => cases v <;> rfl
  unfold ManagedFields.decode? ManagedFields.encode
  refine Option.bind_eq_some_iff.2 ⟨_, rfl, ?_⟩
  refine Option.bind_eq_some_iff.2 ⟨m.apiVersion, optional?_text ?_, ?_⟩
  · simp [lookup?_append]
  refine Option.bind_eq_some_iff.2 ⟨m.fieldsType, optional?_text ?_, ?_⟩
  · simp [lookup?_append]
  refine Option.bind_eq_some_iff.2 ⟨_, hfields ?_, ?_⟩
  · simp [lookup?_append]
  refine Option.bind_eq_some_iff.2 ⟨m.manager, optional?_text ?_, ?_⟩
  · simp [lookup?_append]
  refine Option.bind_eq_some_iff.2 ⟨m.operation, optional?_text ?_, ?_⟩
  · simp [lookup?_append]
  refine Option.bind_eq_some_iff.2 ⟨m.subresource, optional?_text ?_, ?_⟩
  · simp [lookup?_append]
  refine Option.bind_eq_some_iff.2 ⟨_, optional?_wholeText ?_ h, rfl⟩
  simp [lookup?_append]

namespace Metadata

/-- All instants in the metadata are valid. -/
def Timely (m : Metadata) : Prop :=
  (∀ t ∈ m.creationTimestamp, t.Valid) ∧ (∀ t ∈ m.deletionTimestamp, t.Valid) ∧
    ∀ l ∈ m.managedFields, ∀ f ∈ l, ∀ t ∈ f.time, t.Valid

/-- The metadata as it reads back. -/
def reread (m : Metadata) : Metadata :=
  { m with
    creationTimestamp := m.creationTimestamp.map Timestamp.whole
    deletionTimestamp := m.deletionTimestamp.map Timestamp.whole
    managedFields := m.managedFields.map (·.map ManagedFields.reread) }

/-- Metadata with valid instants read back, each instant in whole seconds. -/
theorem decode?_encode {m : Metadata} (h : m.Timely) : decode? m.encode = some m.reread := by
  have hmap {key : String} {fields : List (String × Json)} {s : Option StringMap}
      (h : lookup? key fields = s.map ofStringMap) : optional? toStringMap? key fields = some s :=
    optional?_eq_self h (fun d _ => toStringMap?_ofStringMap d) fun _ _ => Json.noConfusion
  have howners (l : List OwnerReference) :
      toList? OwnerReference.decode? (.array (l.map OwnerReference.encode)) = some l := by
    have hl := toList?_map (f := id) fun (r : OwnerReference) (_ : r ∈ l) => r.decode?_encode
    rwa [List.map_id] at hl
  have hmanaged (l : List ManagedFields) (hl : l ∈ m.managedFields) :
      toList? ManagedFields.decode? (.array (l.map ManagedFields.encode)) =
        some (l.map ManagedFields.reread) :=
    toList?_map fun f hf => ManagedFields.decode?_encode (h.2.2 l hl f hf)
  -- Field by field, in the order of reading; each is looked up among those that are written.
  unfold decode? encode
  refine Option.bind_eq_some_iff.2 ⟨_, rfl, ?_⟩
  refine Option.bind_eq_some_iff.2 ⟨m.annotations, hmap ?_, ?_⟩
  · simp [lookup?_append]
  refine Option.bind_eq_some_iff.2 ⟨_, optional?_wholeText ?_ h.1, ?_⟩
  · simp [lookup?_append]
  refine Option.bind_eq_some_iff.2 ⟨m.deletionGracePeriodSeconds, optional?_int64 ?_, ?_⟩
  · simp [lookup?_append]
  refine Option.bind_eq_some_iff.2 ⟨_, optional?_wholeText ?_ h.2.1, ?_⟩
  · simp [lookup?_append]
  refine Option.bind_eq_some_iff.2 ⟨m.finalizers, optional?_eq_self ?_
    (fun l _ => toStrings?_ofStrings l) (fun _ _ => Json.noConfusion), ?_⟩
  · simp [lookup?_append]
  refine Option.bind_eq_some_iff.2 ⟨m.generateName, optional?_text ?_, ?_⟩
  · simp [lookup?_append]
  refine Option.bind_eq_some_iff.2 ⟨m.generation, optional?_int64 ?_, ?_⟩
  · simp [lookup?_append]
  refine Option.bind_eq_some_iff.2 ⟨m.labels, hmap ?_, ?_⟩
  · simp [lookup?_append]
  refine Option.bind_eq_some_iff.2 ⟨m.managedFields.map (·.map ManagedFields.reread),
    optional?_eq ?_ hmanaged (fun _ _ => Json.noConfusion), ?_⟩
  · simp [lookup?_append]
  refine Option.bind_eq_some_iff.2 ⟨m.name, optional?_text ?_, ?_⟩
  · simp [lookup?_append]
  refine Option.bind_eq_some_iff.2 ⟨m.namespaceName, optional?_text ?_, ?_⟩
  · simp [lookup?_append]
  refine Option.bind_eq_some_iff.2 ⟨m.ownerReferences, optional?_eq_self ?_
    (fun l _ => howners l) (fun _ _ => Json.noConfusion), ?_⟩
  · simp [lookup?_append]
  refine Option.bind_eq_some_iff.2 ⟨m.resourceVersion, optional?_text ?_, ?_⟩
  · simp [lookup?_append]
  refine Option.bind_eq_some_iff.2 ⟨m.selfLink, optional?_text ?_, ?_⟩
  · simp [lookup?_append]
  refine Option.bind_eq_some_iff.2 ⟨m.uid, optional?_text ?_, rfl⟩
  simp [lookup?_append]

end Metadata

/-! ### Conditions -/

theorem Condition.decode?_encode {c : Condition} (h : c.lastTransitionTime.Valid) :
    Condition.decode? c.encode = some c := by
  have hstatus : toChoice? ConditionStatus.names (.string c.status.name) = some c.status := by
    cases c.status <;> rfl
  unfold Condition.decode? Condition.encode
  refine Option.bind_eq_some_iff.2 ⟨_, rfl, ?_⟩
  refine Option.bind_eq_some_iff.2 ⟨c.type, required?_eq (v := .string c.type) rfl rfl, ?_⟩
  refine Option.bind_eq_some_iff.2 ⟨c.status, required?_eq rfl hstatus, ?_⟩
  refine Option.bind_eq_some_iff.2 ⟨c.reason, required?_eq (v := .string c.reason) rfl rfl, ?_⟩
  refine Option.bind_eq_some_iff.2 ⟨c.message, required?_eq (v := .string c.message) rfl rfl, ?_⟩
  exact Option.bind_eq_some_iff.2
    ⟨c.lastTransitionTime, required?_eq rfl (Timestamp.parse?_text h), rfl⟩

end WarmPool
