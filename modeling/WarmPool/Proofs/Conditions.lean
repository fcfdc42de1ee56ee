import Mathlib.Data.List.Nodup
import WarmPool.Reconcile.Report

/-!
# Conditions as a set by type

`Conditions.set` changes the entry of one type and no other (`find?_set_self`, `find?_set_of_ne`),
keeps the types distinct (`nodup_types_set`), and does nothing when what is said has been said
before, whenever it is said again (`set_again`). A status that has said something is not changed by
saying it once more (`RequirementStatus.Says`), and it shows it until something else of the type is
said (`RequirementStatus.Shows`).
-/

namespace WarmPool

namespace Conditions

variable {conditions : List Condition} {c : Condition} {type : String}

theorem type_update (entry c : Condition) : (update entry c).type = c.type := by
  unfold update
  split
  · rfl
  · rfl

theorem status_update (entry c : Condition) : (update entry c).status = c.status := by
  unfold update
  split
  · rfl
  · rfl

/-! ### What is found after an update -/

/-- The entry of the type that is updated. -/
theorem find?_set_self (conditions : List Condition) (c : Condition) :
    find? (set conditions c) c.type =
      some (((find? conditions c.type).map (update · c)).getD c) := by
  unfold find?
  induction conditions with
  | nil => exact List.find?_cons_of_pos (by simp)
  | cons entry rest ih =>
    rw [set]
    by_cases h : entry.type = c.type
    · rw [if_pos h, List.find?_cons_of_pos (by simp [type_update]),
        List.find?_cons_of_pos (by simpa using h)]
      rfl
    · rw [if_neg h, List.find?_cons_of_neg (by simpa using h),
        List.find?_cons_of_neg (by simpa using h), ih]

/-- The entries of other types stay. -/
theorem find?_set_of_ne (conditions : List Condition) (h : type ≠ c.type) :
    find? (set conditions c) type = find? conditions type := by
  unfold find?
  induction conditions with
  | nil => exact List.find?_cons_of_neg (by simpa using h.symm)
  | cons entry rest ih =>
    rw [set]
    by_cases hentry : entry.type = c.type
    · rw [if_pos hentry, List.find?_cons_of_neg (by simpa [type_update] using h.symm),
        List.find?_cons_of_neg (by simpa [hentry] using h.symm)]
    · rw [if_neg hentry, List.find?_cons, List.find?_cons, ih]

/-- The entry of the type that is updated says what was set. -/
theorem exists_find?_set (conditions : List Condition) (c : Condition) :
    ∃ entry, find? (set conditions c) c.type = some entry ∧ entry.status = c.status ∧
      entry.reason = c.reason ∧ entry.message = c.message := by
  refine ⟨_, find?_set_self conditions c, ?_⟩
  cases find? conditions c.type with
  | none => exact ⟨rfl, rfl, rfl⟩
  | some entry =>
    show (update entry c).status = c.status ∧ (update entry c).reason = c.reason ∧
      (update entry c).message = c.message
    unfold update
    split
    · exact ⟨rfl, rfl, rfl⟩
    · exact ⟨rfl, rfl, rfl⟩

theorem holds_set_self (conditions : List Condition) (c : Condition) :
    holds (set conditions c) c.type = decide (c.status = .true) := by
  obtain ⟨entry, hentry, hstatus, -⟩ := exists_find?_set conditions c
  unfold holds
  rw [hentry, Option.map_some, Option.getD_some, hstatus]

theorem holds_set_of_ne (conditions : List Condition) (h : type ≠ c.type) :
    holds (set conditions c) type = holds conditions type := by
  unfold holds
  rw [find?_set_of_ne conditions h]

/-! ### Types -/

/-- An update adds its type at the end, unless it is there. -/
theorem types_set (conditions : List Condition) (c : Condition) :
    (set conditions c).map Condition.type =
      if c.type ∈ conditions.map Condition.type then conditions.map Condition.type
      else conditions.map Condition.type ++ [c.type] := by
  induction conditions with
  | nil => rfl
  | cons entry rest ih =>
    rw [set]
    by_cases h : entry.type = c.type
    · rw [if_pos h, List.map_cons, List.map_cons, type_update, h, if_pos List.mem_cons_self]
    · rw [if_neg h, List.map_cons, List.map_cons, ih]
      by_cases hmem : c.type ∈ rest.map Condition.type
      · rw [if_pos hmem, if_pos (List.mem_cons_of_mem _ hmem)]
      · rw [if_neg hmem, if_neg (by simpa [Ne.symm h] using hmem)]
        rfl

theorem nodup_types_set (h : (conditions.map Condition.type).Nodup) (c : Condition) :
    ((set conditions c).map Condition.type).Nodup := by
  rw [types_set]
  split
  · exact h
  · rename_i hmem
    exact List.nodup_append.2 ⟨h, List.nodup_singleton _, fun a ha b hb heq => by
      rw [List.mem_singleton.1 hb] at heq
      exact hmem (heq ▸ ha)⟩

/-! ### Saying it again -/

theorem update_again (entry c : Condition) (time : Timestamp) :
    update (update entry c) { c with lastTransitionTime := time } = update entry c := by
  have hstatus := status_update entry c
  rw [update, if_pos hstatus]
  unfold update
  split
  · rfl
  · rfl

/-- What has been set is not changed by setting it again at another time. -/
theorem set_again (conditions : List Condition) (c : Condition) (time : Timestamp) :
    set (set conditions c) { c with lastTransitionTime := time } = set conditions c := by
  induction conditions with
  | nil =>
    rw [set, set, if_pos rfl, update, if_pos rfl]
  | cons entry rest ih =>
    rw [set]
    by_cases h : entry.type = c.type
    · rw [if_pos h, set, if_pos (type_update entry c), update_again]
    · rw [if_neg h, set, if_neg h, ih]

/-- An update of another type leaves what has been set as it is. -/
theorem set_comm_fixed {d : Condition} (hne : c.type ≠ d.type) (h : set conditions d = conditions) :
    set (set conditions c) d = set conditions c := by
  induction conditions with
  | nil => cases h
  | cons entry rest ih =>
    rw [set] at h
    by_cases hd : entry.type = d.type
    · rw [if_pos hd, List.cons.injEq] at h
      have hc : entry.type ≠ c.type := fun heq => hne (heq.symm.trans hd)
      rw [set, if_neg hc, set, if_pos hd, h.1]
    · rw [if_neg hd, List.cons.injEq] at h
      by_cases hc : entry.type = c.type
      · rw [set, if_pos hc, set, if_neg (by rw [type_update]; exact hne), h.2]
      · rw [set, if_neg hc, set, if_neg hd, ih h.2]

end Conditions

namespace RequirementStatus

/-- The status has a condition that says this, so that saying it at any time changes nothing. -/
def Says (s : RequirementStatus) (type : String) (status : ConditionStatus)
    (reason message : String) : Prop :=
  ∀ now, s.withCondition type status reason message now = s

variable {s : RequirementStatus} {type reason message : String} {status : ConditionStatus}

theorem says_iff : s.Says type status reason message ↔
    ∀ now, Conditions.set s.conditions ⟨type, status, reason, message, now⟩ = s.conditions :=
  ⟨fun h now => congrArg RequirementStatus.conditions (h now), fun h now => by
    unfold withCondition
    rw [h now]⟩

/-- What was said is said. -/
theorem says_withCondition (s : RequirementStatus) (type : String) (status : ConditionStatus)
    (reason message : String) (now : Timestamp) :
    (s.withCondition type status reason message now).Says type status reason message :=
  says_iff.2 fun time => Conditions.set_again s.conditions ⟨type, status, reason, message, now⟩ time

/-- What is found of another type stays. -/
theorem find?_withCondition (s : RequirementStatus) {type' : String} (hne : type ≠ type')
    (status : ConditionStatus) (reason message : String) (now : Timestamp) :
    Conditions.find? (s.withCondition type' status reason message now).conditions type =
      Conditions.find? s.conditions type := Conditions.find?_set_of_ne s.conditions hne

/-- It is said still after something of another type. -/
theorem Says.withCondition (h : s.Says type status reason message) {type' : String}
    (hne : type' ≠ type) (status' : ConditionStatus) (reason' message' : String)
    (now : Timestamp) :
    (s.withCondition type' status' reason' message' now).Says type status reason message :=
  says_iff.2 fun time => Conditions.set_comm_fixed hne (says_iff.1 h time)

theorem Says.of_conditions {s' : RequirementStatus} (h : s.Says type status reason message)
    (hconditions : s'.conditions = s.conditions) : s'.Says type status reason message :=
  says_iff.2 fun now => by rw [hconditions, says_iff.1 h now]

/-- The condition of a type, the first one, has this status and reason. -/
def Shows (s : RequirementStatus) (type : String) (status : ConditionStatus) (reason : String) :
    Prop :=
  ∃ entry, Conditions.find? s.conditions type = some entry ∧ entry.status = status ∧
    entry.reason = reason

theorem shows_withCondition (s : RequirementStatus) (type : String) (status : ConditionStatus)
    (reason message : String) (now : Timestamp) :
    (s.withCondition type status reason message now).Shows type status reason := by
  obtain ⟨entry, hfound, hstatus, hreason, -⟩ :=
    Conditions.exists_find?_set s.conditions ⟨type, status, reason, message, now⟩
  exact ⟨entry, hfound, hstatus, hreason⟩

/-- It shows so still after something of another type. -/
theorem Shows.withCondition (h : s.Shows type status reason) {type' : String} (hne : type' ≠ type)
    (status' : ConditionStatus) (reason' message' : String) (now : Timestamp) :
    (s.withCondition type' status' reason' message' now).Shows type status reason := by
  obtain ⟨entry, hfound, hentry⟩ := h
  exact ⟨entry, (Conditions.find?_set_of_ne s.conditions hne.symm).trans hfound, hentry⟩

theorem Shows.not_holds (h : s.Shows type .false reason) :
    Conditions.holds s.conditions type = false := by
  obtain ⟨entry, hfound, hstatus, -⟩ := h
  unfold Conditions.holds
  rw [hfound, Option.map_some, Option.getD_some, hstatus]
  rfl

theorem Shows.of_conditions {s' : RequirementStatus} (h : s.Shows type status reason)
    (hconditions : s'.conditions = s.conditions) : s'.Shows type status reason := by
  unfold Shows
  rw [hconditions]
  exact h

end RequirementStatus

end WarmPool
