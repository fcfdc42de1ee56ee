import WarmPool.Proofs.Move
import WarmPool.Proofs.Place

/-!
# Writes to stored requirements

What the calls of a reconcile make of the requirement at its place. Whatever else happens to a
requirement only touches it (`Requirement.Touches`): UID, specification and status stay, our
finalizer is not taken away, and a deletion is not called off.
-/

namespace WarmPool

open Reconcile

/-! ### Valid instants after a write -/

theorem Timestamp.Valid.whole {t : Timestamp} (h : t.Valid) : t.whole.Valid := by
  obtain ⟨hcalendar, hnanos⟩ := h
  refine ⟨hcalendar, ?_⟩
  unfold Timestamp.whole
  simp only
  split <;> omega

theorem Metadata.Timely.reread {m : Metadata} (h : m.Timely) : m.reread.Timely := by
  obtain ⟨hcreation, hdeletion, hmanaged⟩ := h
  refine ⟨fun t ht => ?_, fun t ht => ?_, fun l hl f hf t ht => ?_⟩
  · obtain ⟨s, hs, rfl⟩ := Option.map_eq_some_iff.1 ht
    exact (hcreation s hs).whole
  · obtain ⟨s, hs, rfl⟩ := Option.map_eq_some_iff.1 ht
    exact (hdeletion s hs).whole
  · obtain ⟨before, hbefore, rfl⟩ := Option.map_eq_some_iff.1 hl
    obtain ⟨entry, hentry, rfl⟩ := List.mem_map.1 hf
    obtain ⟨s, hs, rfl⟩ := Option.map_eq_some_iff.1 ht
    exact (hmanaged before hbefore entry hentry s hs).whole

namespace Requirement

variable {r r' : Requirement} {s : RequirementStatus} {finalizer : String}

/-! ### Statuses -/

theorem withStatus_place (hr : r.Timely) (hs : s.Timely) :
    (r.withStatus s).metadata.place = r.metadata.place := by
  rw [withStatus_eq hr.1 hs]
  rfl

theorem withStatus_uid (hr : r.Timely) (hs : s.Timely) :
    (r.withStatus s).metadata.uid = r.metadata.uid := by
  rw [withStatus_eq hr.1 hs]
  rfl

theorem withStatus_spec (hr : r.Timely) (hs : s.Timely) : (r.withStatus s).spec = r.spec := by
  rw [withStatus_eq hr.1 hs]

theorem withStatus_hasFinalizer (hr : r.Timely) (hs : s.Timely) :
    (r.withStatus s).hasFinalizer = r.hasFinalizer := by
  rw [withStatus_eq hr.1 hs]
  rfl

theorem withStatus_isDeleting (hr : r.Timely) (hs : s.Timely) :
    (r.withStatus s).isDeleting = r.isDeleting := by
  rw [withStatus_eq hr.1 hs]
  exact Option.isSome_map

theorem withStatus_known (hr : r.Timely) (hs : s.Timely) :
    (r.withStatus s).known = s.laidOver r.known := by
  rw [withStatus_eq hr.1 hs]
  rfl

theorem withStatus_timely (hr : r.Timely) (hs : s.Timely) : (r.withStatus s).Timely := by
  rw [withStatus_eq hr.1 hs]
  exact ⟨hr.1.reread, hs.laidOver _⟩

/-! ### Finalizers -/

/-- The requirement with a finalizer at the end, unless it is there. -/
def takeFinalizer (r : Requirement) (finalizer : String) : Requirement :=
  match r.metadata.withFinalizer? finalizer with
  | some finalizers => { r with metadata := { r.metadata with finalizers := some finalizers } }
  | none => r

theorem takeFinalizer_eq (r : Requirement) (finalizer : String) :
    ∃ finalizers, r.takeFinalizer finalizer =
        { r with metadata := { r.metadata with finalizers := finalizers } } ∧
      finalizer ∈ finalizers.getD [] ∧
      ∀ f ∈ r.metadata.finalizers.getD [], f ∈ finalizers.getD [] := by
  unfold takeFinalizer Metadata.withFinalizer? Metadata.hasFinalizer
  by_cases h : finalizer ∈ r.metadata.finalizers.getD []
  · refine ⟨r.metadata.finalizers, ?_, h, fun _ hf => hf⟩
    simp [h]
  · refine ⟨some (r.metadata.finalizers.getD [] ++ [finalizer]), ?_, by simp,
      fun f hf => List.mem_append_left _ hf⟩
    simp [h]

theorem hasFinalizer_iff :
    r.hasFinalizer = true ↔ requirementFinalizer ∈ r.metadata.finalizers.getD [] := by
  unfold hasFinalizer Metadata.hasFinalizer
  exact List.contains_iff_mem

/-! ### Touching -/

/-- A requirement is changed in what no reconcile decides by; its finalizer may be new. -/
structure Touches (r r' : Requirement) : Prop where
  place : r'.metadata.place = r.metadata.place
  uid : r'.metadata.uid = r.metadata.uid
  spec : r'.spec = r.spec
  status : r'.status = r.status
  finalizer : r.hasFinalizer = true → r'.hasFinalizer = true
  deleting : r.isDeleting = true → r'.isDeleting = true
  timely : r.Timely → r'.Timely

theorem Touches.refl (r : Requirement) : Touches r r :=
  ⟨rfl, rfl, rfl, rfl, id, id, id⟩

theorem Touches.known (h : Touches r r') : r'.known = r.known := known_congr h.status

theorem touches_takeFinalizer (r : Requirement) (finalizer : String) :
    Touches r (r.takeFinalizer finalizer) := by
  obtain ⟨finalizers, heq, -, hall⟩ := r.takeFinalizer_eq finalizer
  rw [heq]
  refine ⟨rfl, rfl, rfl, rfl, fun h => ?_, id, id⟩
  exact hasFinalizer_iff.2 (hall _ (hasFinalizer_iff.1 h))

theorem isDeleting_takeFinalizer (r : Requirement) (finalizer : String) :
    (r.takeFinalizer finalizer).isDeleting = r.isDeleting := by
  obtain ⟨finalizers, heq, -⟩ := r.takeFinalizer_eq finalizer
  rw [heq]
  rfl

theorem hasFinalizer_takeFinalizer (r : Requirement) :
    (r.takeFinalizer requirementFinalizer).hasFinalizer = true := by
  obtain ⟨finalizers, heq, hmem, -⟩ := r.takeFinalizer_eq requirementFinalizer
  rw [heq]
  exact hasFinalizer_iff.2 hmem

/-! ### Alike but for status and finalizers -/

/-- What reconciles leave as it is. -/
structure Alike (r r' : Requirement) : Prop where
  place : r'.metadata.place = r.metadata.place
  uid : r'.metadata.uid = r.metadata.uid
  generation : r'.metadata.generation = r.metadata.generation
  spec : r'.spec = r.spec
  deleting : r'.isDeleting = r.isDeleting
  timely : r.Timely → r'.Timely

theorem Alike.refl (r : Requirement) : Alike r r := ⟨rfl, rfl, rfl, rfl, rfl, id⟩

theorem Alike.trans {r'' : Requirement} (h : Alike r r') (h' : Alike r' r'') : Alike r r'' :=
  ⟨h'.place.trans h.place, h'.uid.trans h.uid, h'.generation.trans h.generation,
    h'.spec.trans h.spec, h'.deleting.trans h.deleting, fun ht => h'.timely (h.timely ht)⟩

theorem Alike.isAt {namespaceName name : String} (h : Alike r r')
    (hat : r.metadata.isAt namespaceName name = true) :
    r'.metadata.isAt namespaceName name = true := by
  rwa [Metadata.isAt_congr h.place]

theorem alike_withStatus (hr : r.Timely) (hs : s.Timely) : Alike r (r.withStatus s) := by
  refine ⟨withStatus_place hr hs, withStatus_uid hr hs, ?_, withStatus_spec hr hs,
    withStatus_isDeleting hr hs, fun _ => withStatus_timely hr hs⟩
  rw [withStatus_eq hr.1 hs]
  rfl

theorem alike_takeFinalizer (r : Requirement) (finalizer : String) :
    Alike r (r.takeFinalizer finalizer) := by
  obtain ⟨finalizers, heq, -⟩ := r.takeFinalizer_eq finalizer
  rw [heq]
  exact ⟨rfl, rfl, rfl, rfl, rfl, id⟩

end Requirement

namespace Cluster

variable {c : Cluster} {namespaceName name : String} {s : RequirementStatus}

/-! ### What the calls store -/

/-- A status is written over that of the requirement found. -/
theorem requirement?_patchStatus (htimely : ∀ r ∈ c.requirements, r.Timely) (hs : s.Timely) :
    (c.patchStatus namespaceName name s).2.requirement? namespaceName name =
      (c.requirement? namespaceName name).map (·.withStatus s) := by
  unfold patchStatus
  split
  · refine requirement?_updateRequirement fun r hr hat => ?_
    rwa [Metadata.isAt_congr (Requirement.withStatus_place (htimely r hr) hs)]
  · rename_i hnone
    rw [Option.not_isSome_iff_eq_none] at hnone
    simp only [hnone, Option.map_none]

/-- A status of a stored requirement is written. -/
theorem patchStatus_ok {r : Requirement} (hstored : c.requirement? namespaceName name = some r)
    (s : RequirementStatus) : (c.patchStatus namespaceName name s).1 = .ok () := by
  unfold patchStatus
  rw [hstored]
  rfl

/-- Operations are no concern of a status write. -/
theorem operations_patchStatus (c : Cluster) (namespaceName name : String)
    (s : RequirementStatus) : (c.patchStatus namespaceName name s).2.operations = c.operations := by
  unfold patchStatus
  split
  · rfl
  · rfl

theorem caches_patchStatus (c : Cluster) (namespaceName name : String)
    (s : RequirementStatus) : (c.patchStatus namespaceName name s).2.caches = c.caches := by
  unfold patchStatus
  split
  · rfl
  · rfl

theorem addFinalizer_eq (c : Cluster) (namespaceName name finalizer : String) :
    c.addFinalizer namespaceName name finalizer =
      if (c.requirement? namespaceName name).isSome then
        (.ok (), c.updateRequirement namespaceName name (·.takeFinalizer finalizer))
      else (.error (missing name), c) := rfl

/-- A stored requirement gets a finalizer, and nothing else changes. -/
theorem addFinalizer_ok {r : Requirement} (hstored : c.requirement? namespaceName name = some r)
    (finalizer : String) :
    (c.addFinalizer namespaceName name finalizer).1 = .ok () ∧
      (c.addFinalizer namespaceName name finalizer).2.caches = c.caches ∧
      (c.addFinalizer namespaceName name finalizer).2.operations = c.operations := by
  rw [addFinalizer_eq, if_pos (by rw [hstored]; rfl)]
  exact ⟨rfl, rfl, rfl⟩

/-- The requirement found gets a finalizer. -/
theorem requirement?_addFinalizer (c : Cluster) (namespaceName name finalizer : String) :
    (c.addFinalizer namespaceName name finalizer).2.requirement? namespaceName name =
      (c.requirement? namespaceName name).map (·.takeFinalizer finalizer) := by
  rw [addFinalizer_eq]
  split
  · refine requirement?_updateRequirement fun r _ hat => ?_
    rwa [Metadata.isAt_congr (r.touches_takeFinalizer finalizer).place]
  · rename_i hnone
    rw [Option.not_isSome_iff_eq_none] at hnone
    simp only [hnone, Option.map_none]

theorem operations_removeFinalizer (c : Cluster) (namespaceName name finalizer : String) :
    (c.removeFinalizer namespaceName name finalizer).operations = c.operations := by
  unfold removeFinalizer
  split
  · rfl
  · split
    · rfl
    · split
      · rfl
      · rfl

/-- What is found once a finalizer is taken away: nothing, or a requirement that may lack it. -/
theorem requirement?_removeFinalizer {finalizer : String} {r' : Requirement}
    (h : (c.removeFinalizer namespaceName name finalizer).requirement? namespaceName name =
      some r') :
    ∃ r, c.requirement? namespaceName name = some r ∧
      (r' = r ∨ r' = r.dropFinalizer finalizer) := by
  have hkept : ∀ r ∈ c.requirements, r.metadata.isAt namespaceName name = true →
      (r.dropFinalizer finalizer).metadata.isAt namespaceName name = true := fun _ _ hat => hat
  unfold removeFinalizer at h
  split at h
  · rename_i hnone
    rw [hnone] at h
    cases h
  · rename_i r hfound
    split at h
    · exact ⟨r', h, .inl rfl⟩
    · split at h
      · rw [requirement?_removeRequirement] at h
        cases h
      · rw [requirement?_updateRequirement hkept, hfound] at h
        cases h
        exact ⟨r, hfound, .inr rfl⟩

/-! ### What the calls leave alone -/

/--
The requirements of one place are changed or removed, or none are; what is changed keeps place, UID
and the validity of its instants.
-/
inductive Revises (namespaceName name : String) (c c' : Cluster) : Prop
  | same (h : c'.requirements = c.requirements)
  | update (change : Requirement → Requirement)
      (hplace : ∀ r ∈ c.requirements, (change r).metadata.place = r.metadata.place)
      (huid : ∀ r ∈ c.requirements, (change r).metadata.uid = r.metadata.uid)
      (htimely : ∀ r ∈ c.requirements, (change r).Timely)
      (h : c'.requirements =
        updateWhere (fun r => r.metadata.isAt namespaceName name) change c.requirements)
  | remove (h : c'.requirements =
        c.requirements.filter fun r => !r.metadata.isAt namespaceName name)

/-- What is found at other places stays. -/
theorem Revises.requirement?_of_ne {c' : Cluster} {namespaceName' name' : String}
    (h : Revises namespaceName' name' c c')
    (hne : (namespaceName', name') ≠ (namespaceName, name)) :
    c'.requirement? namespaceName name = c.requirement? namespaceName name := by
  cases h with
  | same h =>
    unfold requirement?
    rw [h]
  | update change hplace _ _ h =>
    refine (congrArg (List.find? _) h).trans
      (requirement?_updateRequirement_of_ne (fun r hr hat => ?_) hne)
    rwa [Metadata.isAt_congr (hplace r hr)]
  | remove h =>
    exact (congrArg (List.find? _) h).trans (requirement?_removeRequirement_of_ne hne)

/-- Every requirement stored has the place and the UID of one stored before. -/
theorem Revises.mem {c' : Cluster} (h : Revises namespaceName name c c')
    (htimely : ∀ r ∈ c.requirements, r.Timely) {r' : Requirement} (hr' : r' ∈ c'.requirements) :
    r'.Timely ∧ ∃ r ∈ c.requirements, r'.metadata.place = r.metadata.place ∧
      r'.metadata.uid = r.metadata.uid := by
  cases h with
  | same h =>
    rw [h] at hr'
    exact ⟨htimely r' hr', r', hr', rfl, rfl⟩
  | update change hplace huid hchange h =>
    rw [h, mem_updateWhere] at hr'
    obtain ⟨r, hr, rfl⟩ := hr'
    split
    · exact ⟨hchange r hr, r, hr, hplace r hr, huid r hr⟩
    · exact ⟨htimely r hr, r, hr, rfl, rfl⟩
  | remove h =>
    rw [h] at hr'
    have hr := (List.mem_filter.1 hr').1
    exact ⟨htimely r' hr, r', hr, rfl, rfl⟩

theorem revises_patchStatus (htimely : ∀ r ∈ c.requirements, r.Timely) (hs : s.Timely) :
    Revises namespaceName name c (c.patchStatus namespaceName name s).2 := by
  unfold patchStatus
  split
  · exact .update _ (fun r hr => Requirement.withStatus_place (htimely r hr) hs)
      (fun r hr => Requirement.withStatus_uid (htimely r hr) hs)
      (fun r hr => Requirement.withStatus_timely (htimely r hr) hs) rfl
  · exact .same rfl

theorem revises_addFinalizer (htimely : ∀ r ∈ c.requirements, r.Timely) (finalizer : String) :
    Revises namespaceName name c (c.addFinalizer namespaceName name finalizer).2 := by
  rw [addFinalizer_eq]
  split
  · exact .update _ (fun r _ => (r.touches_takeFinalizer finalizer).place)
      (fun r _ => (r.touches_takeFinalizer finalizer).uid)
      (fun r hr => (r.touches_takeFinalizer finalizer).timely (htimely r hr)) rfl
  · exact .same rfl

theorem revises_removeFinalizer (htimely : ∀ r ∈ c.requirements, r.Timely) (finalizer : String) :
    Revises namespaceName name c (c.removeFinalizer namespaceName name finalizer) := by
  unfold removeFinalizer
  split
  · exact .same rfl
  · split
    · exact .same rfl
    · split
      · exact .remove rfl
      · exact .update (·.dropFinalizer finalizer) (fun _ _ => rfl) (fun _ _ => rfl) htimely rfl

end Cluster

/-! ### The calls of a reconcile -/

/-- Whether a call is a write to a requirement. -/
def Reconcile.Call.writesRequirement : Call → Bool
  | .patchStatus .. | .addFinalizer .. | .removeFinalizer .. => true
  | _ => false

namespace Cluster

variable {c view : Cluster} {namespaceName name : String} {call : Call}

theorem requirements_serve (hcall : call.writesRequirement = false) :
    (serve namespaceName view c call).2.requirements = c.requirements := by
  cases call with
  | patchStatus _ _ => cases hcall
  | addFinalizer _ _ => cases hcall
  | removeFinalizer _ _ => cases hcall
  | getCache _ => rfl
  | createCache cache =>
    show (c.createCache namespaceName cache).2.requirements = _
    unfold createCache
    split
    · rfl
    · rfl
  | getOperation _ => rfl
  | listOperations _ => rfl
  | createOperation _ => rfl
  | patchOwners operation seen owners =>
    show (c.patchOwners namespaceName operation seen owners).2.requirements = _
    unfold patchOwners
    simp only
    split
    · rfl
    · split
      · rfl
      · rfl

/-- The calls of a reconcile change the requirement at its place only. -/
theorem revises_serve {occasion : Occasion} {q : Requirement} {past : List Answered}
    (hmove : Move occasion q past call) (hat : q.metadata.isAt namespaceName name = true)
    (htimely : ∀ r ∈ c.requirements, r.Timely) (hq : q.known.Timely)
    (hnow : occasion.now.Valid) :
    c.Revises namespaceName name (serve namespaceName view c call).2 := by
  have hname : q.name = name := Metadata.anyName_of_isAt hat
  cases call with
  | patchStatus name' status =>
    obtain ⟨rfl, -, -, hstatus⟩ := hmove.patchStatus_cases
    rw [hname]
    exact revises_patchStatus htimely (hstatus hq hnow)
  | addFinalizer name' finalizer =>
    obtain ⟨rfl, -⟩ := hmove.addFinalizer_cases
    rw [hname]
    exact revises_addFinalizer htimely _
  | removeFinalizer name' finalizer =>
    obtain ⟨rfl, -, -⟩ := hmove.removeFinalizer_cases
    rw [hname]
    exact revises_removeFinalizer htimely _
  | _ => exact .same (requirements_serve rfl)

/-- The calls of a reconcile keep instants valid. -/
theorem timely_serve {occasion : Occasion} {q : Requirement} {past : List Answered}
    (hmove : Move occasion q past call) (hat : q.metadata.isAt namespaceName name = true)
    (htimely : ∀ r ∈ c.requirements, r.Timely) (hq : q.known.Timely)
    (hnow : occasion.now.Valid) :
    ∀ r ∈ (serve namespaceName view c call).2.requirements, r.Timely :=
  fun _ hr => ((revises_serve hmove hat htimely hq hnow).mem htimely hr).1

end Cluster

end WarmPool
