import Mathlib.Data.List.Induction
import WarmPool.Proofs.Conditions

/-!
# What a list of conditions keeps of its updates

`Conditions.setAll` makes updates one after the other. Each entry shows what was said of its type
last, and the time since when its status has been said without a break, which `Conditions.Reflects`
reads off the history of the type alone: updates of other types do not matter. The types stand in
the order in which they were first mentioned (`Conditions.setAll_reflects`).

A list with distinct types is the one that its own entries make of the empty list
(`setAll_nil_of_nodup`), so its entries count as the first updates, and everything is proved for
updates of the empty list.
-/

namespace WarmPool

namespace Conditions

variable {conditions updates later past : List Condition} {entry c d : Condition} {type : String}

/-- The list after these updates, one after the other. -/
def setAll (conditions updates : List Condition) : List Condition := updates.foldl set conditions

theorem setAll_append (conditions updates later : List Condition) :
    setAll conditions (updates ++ later) = setAll (setAll conditions updates) later :=
  List.foldl_append

theorem setAll_concat (conditions updates : List Condition) (c : Condition) :
    setAll conditions (updates ++ [c]) = set (setAll conditions updates) c :=
  setAll_append conditions updates [c]

/-- What a list of updates says of a type, in order. -/
def said (past : List Condition) (type : String) : List Condition :=
  past.filter fun c => c.type = type

/-- The entry of a type shows what was said of it: here, all of it is in `past`. -/
structure Reflects (past : List Condition) (entry : Condition) : Prop where
  /-- What was said last. -/
  last : ∃ c, past.getLast? = some c ∧ entry.type = c.type ∧ entry.status = c.status ∧
    entry.reason = c.reason ∧ entry.message = c.message
  /-- The time of the first update of those at the end that all have the same status. -/
  since : ∃ (before : List Condition) (first : Condition) (run : List Condition),
    past = before ++ first :: run ∧ (∀ c ∈ first :: run, c.status = entry.status) ∧
      (∀ c, before.getLast? = some c → c.status ≠ entry.status) ∧
      entry.lastTransitionTime = first.lastTransitionTime

/-! ### One update -/

/-- An update of a new type goes to the end. -/
theorem set_of_not_mem (h : c.type ∉ conditions.map Condition.type) :
    set conditions c = conditions ++ [c] := by
  induction conditions with
  | nil => rfl
  | cons entry rest ih =>
    rw [List.map_cons, List.mem_cons, not_or] at h
    rw [set, if_neg (Ne.symm h.1), ih h.2, List.cons_append]

/-- An update is reported as a change exactly if it changes the list. -/
theorem changes_iff : changes conditions c = true ↔ set conditions c ≠ conditions := by
  unfold changes
  induction conditions with
  | nil => simp [find?, set]
  | cons entry rest ih =>
    unfold find? at ih ⊢
    rw [set]
    by_cases h : entry.type = c.type
    · rw [List.find?_cons_of_pos (by simpa using h), if_pos h, decide_eq_true_iff]
      exact ⟨fun hne heq => hne (List.cons.inj heq).1.symm, fun hne heq => hne (by rw [← heq])⟩
    · rw [List.find?_cons_of_neg (by simpa using h), if_neg h, ih]
      exact ⟨fun hne heq => hne (List.cons.inj heq).2, fun hne heq => hne (by rw [heq])⟩

theorem find?_eq_some_of_mem (hdistinct : (conditions.map Condition.type).Nodup)
    (h : entry ∈ conditions) : find? conditions entry.type = some entry := by
  induction conditions with
  | nil => cases h
  | cons first rest ih =>
    unfold find? at ih ⊢
    rw [List.map_cons, List.nodup_cons] at hdistinct
    rcases List.mem_cons.1 h with rfl | h
    · exact List.find?_cons_of_pos (by simp)
    · have hne : first.type ≠ entry.type := fun heq =>
        hdistinct.1 (heq ▸ List.mem_map_of_mem h)
      rw [List.find?_cons_of_neg (by simpa using hne), ih hdistinct.2 h]

theorem not_mem_types_of_find? (h : find? conditions type = none) :
    type ∉ conditions.map Condition.type := by
  intro hmem
  obtain ⟨entry, hentry, rfl⟩ := List.mem_map.1 hmem
  exact List.find?_eq_none.1 h entry hentry (decide_eq_true rfl)

theorem reflects_singleton (c : Condition) : Reflects [c] c :=
  ⟨⟨c, rfl, rfl, rfl, rfl, rfl⟩, [], c, [], rfl, by simp, by simp, rfl⟩

/-- The run of equal statuses goes on if the update has the status of the entry, else it begins. -/
theorem Reflects.update (h : Reflects past entry) (c : Condition) :
    Reflects (past ++ [c]) (update entry c) := by
  obtain ⟨⟨l, hl, -, hstatus, -⟩, before, first, run, rfl, hrun, hbefore, htime⟩ := h
  unfold Conditions.update
  by_cases hsame : entry.status = c.status
  · rw [if_pos hsame]
    refine ⟨⟨c, List.getLast?_concat, rfl, rfl, rfl, rfl⟩,
      before, first, run ++ [c], ?_, ?_, ?_, ?_⟩
    · rw [List.append_assoc, List.cons_append]
    · intro d hd
      rw [← List.cons_append, List.mem_append, List.mem_singleton] at hd
      rcases hd with hd | rfl
      · exact (hrun d hd).trans hsame
      · rfl
    · exact fun d hd => hsame ▸ hbefore d hd
    · exact htime
  · rw [if_neg hsame]
    refine ⟨⟨c, List.getLast?_concat, rfl, rfl, rfl, rfl⟩, _, c, [], rfl, by simp, ?_, rfl⟩
    intro d hd
    rw [hl, Option.some.injEq] at hd
    rw [← hd, ← hstatus]
    exact hsame

/-! ### All updates -/

theorem nodup_types_setAll (h : (conditions.map Condition.type).Nodup) :
    ((setAll conditions updates).map Condition.type).Nodup := by
  induction updates generalizing conditions with
  | nil => exact h
  | cons c updates ih => exact ih (nodup_types_set h c)

/-- Updates of distinct types make themselves the list. -/
theorem setAll_of_nodup (h : ((conditions ++ updates).map Condition.type).Nodup) :
    setAll conditions updates = conditions ++ updates := by
  induction updates generalizing conditions with
  | nil => exact (List.append_nil conditions).symm
  | cons c updates ih =>
    have hnew : c.type ∉ conditions.map Condition.type := fun hmem => by
      rw [List.map_append, List.nodup_append] at h
      exact h.2.2 _ hmem c.type (by simp) rfl
    have happend : conditions ++ c :: updates = conditions ++ [c] ++ updates := by simp
    show setAll (set conditions c) updates = _
    rw [happend] at h ⊢
    rw [set_of_not_mem hnew, ih h]

theorem setAll_nil_of_nodup (h : (conditions.map Condition.type).Nodup) :
    setAll [] conditions = conditions := setAll_of_nodup h

/-- The types stand in the order in which they are first mentioned. -/
theorem types_setAll (past : List Condition) :
    (setAll [] past).map Condition.type = (past.map Condition.type).eraseDups := by
  induction past using List.reverseRecOn with
  | nil => rfl
  | append_singleton past c ih =>
    rw [setAll_concat, types_set, ih, List.map_append, List.eraseDups_append]
    by_cases h : c.type ∈ past.map Condition.type
    · rw [if_pos (List.mem_eraseDups.2 h)]
      simp only [List.removeAll, List.map_cons, List.map_nil]
      rw [List.filter_cons_of_neg (by simpa using h), List.filter_nil, List.eraseDups_nil,
        List.append_nil]
    · rw [if_neg (mt List.mem_eraseDups.1 h)]
      simp only [List.removeAll, List.map_cons, List.map_nil]
      rw [List.filter_cons_of_pos (by simpa using h), List.filter_nil, List.eraseDups_cons,
        List.filter_nil, List.eraseDups_nil]

theorem said_eq_nil (h : type ∉ past.map Condition.type) : said past type = [] :=
  List.filter_eq_nil_iff.2 fun _ hc hsame =>
    h (of_decide_eq_true hsame ▸ List.mem_map_of_mem hc)

theorem said_concat_self (past : List Condition) (c : Condition) :
    said (past ++ [c]) c.type = said past c.type ++ [c] := by
  simp [said, List.filter_append]

theorem said_concat_of_ne (past : List Condition) (h : c.type ≠ type) :
    said (past ++ [c]) type = said past type := by
  simp [said, List.filter_append, h]

/-- Every entry shows what was said of its type. -/
theorem reflects_of_mem_setAll (h : entry ∈ setAll [] past) :
    Reflects (said past entry.type) entry := by
  induction past using List.reverseRecOn generalizing entry with
  | nil => cases h
  | append_singleton past c ih =>
    have hdistinct : ((setAll [] past).map Condition.type).Nodup :=
      nodup_types_setAll List.nodup_nil
    have hfound : find? (set (setAll [] past) c) entry.type = some entry :=
      find?_eq_some_of_mem (nodup_types_set hdistinct c) (setAll_concat [] past c ▸ h)
    by_cases htype : c.type = entry.type
    · rw [← htype, find?_set_self] at hfound
      rw [← htype, said_concat_self]
      cases hold : find? (setAll [] past) c.type with
      | none =>
        have hnew : c.type ∉ past.map Condition.type := by
          rw [← List.mem_eraseDups, ← types_setAll]
          exact not_mem_types_of_find? hold
        rw [hold] at hfound
        obtain rfl := Option.some.inj hfound
        rw [said_eq_nil hnew]
        exact reflects_singleton c
      | some old =>
        rw [hold] at hfound
        obtain rfl := Option.some.inj hfound
        have holdtype : old.type = c.type := by simpa using List.find?_some hold
        exact (holdtype ▸ ih (List.mem_of_find?_eq_some hold)).update c
    · rw [find?_set_of_ne _ (Ne.symm htype)] at hfound
      rw [said_concat_of_ne past htype]
      exact ih (List.mem_of_find?_eq_some hfound)

/-- Updates of other types leave what has been said as it is. -/
theorem set_setAll_fixed (h : set conditions d = conditions)
    (hother : ∀ c ∈ later, c.type ≠ d.type) :
    set (setAll conditions later) d = setAll conditions later := by
  induction later generalizing conditions with
  | nil => exact h
  | cons c later ih =>
    exact ih (set_comm_fixed (hother c List.mem_cons_self) h)
      fun e he => hother e (List.mem_cons_of_mem c he)

/--
After any updates of a list with distinct types, the types are distinct still: those of the list and
then the new ones, each where it was first mentioned. Every entry shows what was said of its type.
An update is reported as a change exactly if it changes the list, so that the last update of a type
is not when it is made again at another time.
-/
theorem setAll_reflects (conditions updates : List Condition)
    (hdistinct : (conditions.map Condition.type).Nodup) :
    ((setAll conditions updates).map Condition.type).Nodup ∧
    (setAll conditions updates).map Condition.type = conditions.map Condition.type ++
      ((updates.map Condition.type).removeAll (conditions.map Condition.type)).eraseDups ∧
    (∀ entry ∈ setAll conditions updates,
      Reflects (said (conditions ++ updates) entry.type) entry) ∧
    ∀ (before : List Condition) (c : Condition) (later : List Condition),
      updates = before ++ c :: later →
      (changes (setAll conditions before) c = true ↔
        setAll conditions (before ++ [c]) ≠ setAll conditions before) ∧
      ((∀ d ∈ later, d.type ≠ c.type) → ∀ time,
        changes (setAll conditions updates) { c with lastTransitionTime := time } = false ∧
        set (setAll conditions updates) { c with lastTransitionTime := time } =
          setAll conditions updates) := by
  have hall : setAll conditions updates = setAll [] (conditions ++ updates) := by
    rw [setAll_append, setAll_nil_of_nodup hdistinct]
  refine ⟨nodup_types_setAll hdistinct, ?_, fun entry hentry => ?_, ?_⟩
  · have hown : (conditions.map Condition.type).eraseDups = conditions.map Condition.type := by
      rw [← types_setAll, setAll_nil_of_nodup hdistinct]
    rw [hall, types_setAll, List.map_append, List.eraseDups_append, hown]
  · exact reflects_of_mem_setAll (hall ▸ hentry)
  · rintro before c later rfl
    refine ⟨setAll_concat conditions before c ▸ changes_iff, fun hother time => ?_⟩
    have hfixed : set (setAll conditions (before ++ c :: later))
        { c with lastTransitionTime := time } = setAll conditions (before ++ c :: later) := by
      rw [show setAll conditions (before ++ c :: later) =
        setAll (set (setAll conditions before) c) later from setAll_append ..]
      exact set_setAll_fixed (set_again (setAll conditions before) c time) hother
    exact ⟨Bool.eq_false_iff.2 fun h => changes_iff.1 h hfixed, hfixed⟩

/-- Updates of three types in turn; the status of `A` has been the same in the last two. -/
def sampleUpdates : List Condition :=
  [⟨"B", .true, "r", "m", ⟨3, 0⟩⟩, ⟨"A", .false, "r", "m", ⟨4, 0⟩⟩,
    ⟨"C", .unknown, "r", "m", ⟨5, 0⟩⟩, ⟨"A", .true, "r", "m", ⟨6, 0⟩⟩,
    ⟨"B", .true, "r", "n", ⟨7, 0⟩⟩, ⟨"A", .true, "s", "n", ⟨8, 0⟩⟩]

theorem setAll_reflects_sample :
    (([⟨"A", .true, "r", "m", ⟨1, 0⟩⟩] : List Condition).map Condition.type).Nodup ∧
    setAll [⟨"A", .true, "r", "m", ⟨1, 0⟩⟩] sampleUpdates =
      [⟨"A", .true, "s", "n", ⟨6, 0⟩⟩, ⟨"B", .true, "r", "n", ⟨3, 0⟩⟩,
        ⟨"C", .unknown, "r", "m", ⟨5, 0⟩⟩] ∧
    Reflects
      (said (⟨"A", .true, "r", "m", ⟨1, 0⟩⟩ :: sampleUpdates) "A") ⟨"A", .true, "s", "n", ⟨6, 0⟩⟩ ∧
    changes (setAll [⟨"A", .true, "r", "m", ⟨1, 0⟩⟩] sampleUpdates)
      ⟨"A", .true, "s", "n", ⟨9, 0⟩⟩ = false := by
  have hdistinct :
      (([⟨"A", .true, "r", "m", ⟨1, 0⟩⟩] : List Condition).map Condition.type).Nodup :=
    List.nodup_singleton _
  obtain ⟨-, -, hreflects, hupdates⟩ := setAll_reflects _ sampleUpdates hdistinct
  refine ⟨hdistinct, by decide, hreflects ⟨"A", .true, "s", "n", ⟨6, 0⟩⟩ (by decide), ?_⟩
  obtain ⟨-, hagain⟩ := hupdates (sampleUpdates.take 5) ⟨"A", .true, "s", "n", ⟨8, 0⟩⟩ [] rfl
  exact (hagain (fun d hd => nomatch hd) ⟨9, 0⟩).1

end Conditions

end WarmPool
