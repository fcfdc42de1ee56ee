import Mathlib.Data.List.Induction
import Mathlib.Data.List.TakeWhile
import WarmPool.Cache
import WarmPool.Operation
import WarmPool.Proofs.StatusWrite

/-!
# Bodies read back

Reading undoes writing for the body of every resource (`bodies_read_back`): what is written reads
back as it was, and whatever can be read at all, in whichever of its many spellings, is the same
once it is written and read again. The instants are those that exist, and no others can be read
(`Timestamp.valid_of_parse?`).
-/

namespace WarmPool

open Json

/-! ### Instants that can be read -/

namespace Timestamp

open Decimal

theorem value_lt {digits : List Char} (h : ∀ c ∈ digits, c.isDigit = true) :
    value digits < 10 ^ digits.length := by
  -- By induction from the back, where the lowest digit stands.
  induction digits using List.reverseRecOn with
  | nil => exact Nat.one_pos
  | append_singleton digits c ih =>
    have hdigits := ih fun d hd => h d (List.mem_append_left _ hd)
    have hc : c.toNat - '0'.toNat ≤ 9 := by
      have hdigit := h c (by simp)
      simp only [Char.isDigit, Bool.and_eq_true, decide_eq_true_eq, ge_iff_le,
        UInt32.le_iff_toNat_le] at hdigit
      have hhigh : c.toNat ≤ 57 := hdigit.2
      have hzero : '0'.toNat = 48 := rfl
      omega
    have hvalue : value (digits ++ [c]) = 10 * value digits + (c.toNat - '0'.toNat) := by
      unfold value
      rw [List.foldl_append]
      rfl
    rw [hvalue, List.length_append, List.length_singleton, Nat.pow_succ]
    omega

/-- A fraction that is read is less than a second. -/
theorem parseFraction?_lt {cs rest : List Char} {nanos : Nat}
    (h : parseFraction? cs = some (nanos, rest)) : nanos < 1000000000 := by
  unfold parseFraction? at h
  split at h
  · rename_i cs
    simp only at h
    split at h
    · cases h
    · rw [Option.some.injEq, Prod.mk.injEq] at h
      obtain ⟨rfl, -⟩ := h
      have hdigits : ∀ c ∈ (cs.takeWhile Char.isDigit).take 9, c.isDigit = true := fun c hc =>
        List.mem_takeWhile_imp (List.mem_of_mem_take hc)
      have hlength : ((cs.takeWhile Char.isDigit).take 9).length ≤ 9 := List.length_take_le 9 _
      have hlt := value_lt hdigits
      unfold value at hlt
      calc _ < 10 ^ ((cs.takeWhile Char.isDigit).take 9).length *
            10 ^ (9 - ((cs.takeWhile Char.isDigit).take 9).length) :=
          Nat.mul_lt_mul_of_pos_right hlt (Nat.pow_pos (by decide))
        _ = 1000000000 := by
          rw [← Nat.pow_add, Nat.add_sub_cancel' hlength]
  · cases h
    decide

/-- Offsets are whole minutes. -/
theorem parseOffset?_dvd {cs rest : List Char} {offset : Int}
    (h : parseOffset? cs = some (offset, rest)) : 60 ∣ offset := by
  have hzero {rest' : List Char} (h : some ((0 : Int), rest') = some (offset, rest)) :
      60 ∣ offset := by
    cases h
    exact dvd_zero 60
  unfold parseOffset? at h
  split at h
  · exact hzero h
  · exact hzero h
  · split at h
    · exact hzero h
    · split at h
      · -- Either sign goes on alike.
        simp only at h
        split at h
        all_goals try split at h
        all_goals
          obtain ⟨negative, -, h⟩ := Option.bind_eq_some_iff.1 h
          obtain ⟨⟨hours, cs₁⟩, -, h⟩ := Option.bind_eq_some_iff.1 h
          obtain ⟨⟨minutes, cs₂⟩, -, h⟩ := Option.bind_eq_some_iff.1 h
          simp only at h
          split at h
          · rw [Option.some.injEq, Prod.mk.injEq] at h
            obtain ⟨rfl, -⟩ := h
            split <;> omega
          · cases h
      · cases h

/-- Parts that denote an instant denote one that exists. -/
theorem ofParts?_valid {year : Int} {month day hour minute second nanos : Nat} {offset : Int}
    {t : Timestamp} (hnanos : nanos < 1000000000) (hoffset : 60 ∣ offset)
    (h : ofParts? year month day hour minute second nanos offset = some t) : t.Valid := by
  unfold ofParts? at h
  split at h
  · by_cases hleap : second = 60
    · simp only [hleap, ↓reduceIte] at h
      split at h
      · rename_i hcalendar
        rw [Option.some.injEq] at h
        subst h
        -- A leap second is the sixtieth of its minute, whatever the offset.
        refine ⟨hcalendar, .inr ?_⟩
        simp only
        omega
      · cases h
    · simp only [hleap, ↓reduceIte] at h
      split at h
      · rename_i hcalendar
        rw [Option.some.injEq] at h
        subst h
        exact ⟨hcalendar, .inl hnanos⟩
      · cases h
  · cases h

/-- An instant that is read exists. -/
theorem valid_of_parse? {text : String} {t : Timestamp} (h : parse? text = some t) : t.Valid := by
  unfold parse? parseChars? at h
  obtain ⟨⟨year, _⟩, -, h⟩ := Option.bind_eq_some_iff.1 h
  obtain ⟨_, -, h⟩ := Option.bind_eq_some_iff.1 h
  obtain ⟨⟨month, _⟩, -, h⟩ := Option.bind_eq_some_iff.1 h
  obtain ⟨_, -, h⟩ := Option.bind_eq_some_iff.1 h
  obtain ⟨⟨day, cs⟩, -, h⟩ := Option.bind_eq_some_iff.1 h
  -- Whichever character stands between date and time, the clock follows.
  simp only at h
  split at h
  all_goals
    obtain ⟨_, -, h⟩ := Option.bind_eq_some_iff.1 h
    obtain ⟨⟨hour, _⟩, -, h⟩ := Option.bind_eq_some_iff.1 h
    obtain ⟨_, -, h⟩ := Option.bind_eq_some_iff.1 h
    obtain ⟨⟨minute, _⟩, -, h⟩ := Option.bind_eq_some_iff.1 h
    obtain ⟨_, -, h⟩ := Option.bind_eq_some_iff.1 h
    obtain ⟨⟨second, _⟩, -, h⟩ := Option.bind_eq_some_iff.1 h
    obtain ⟨⟨nanos, _⟩, hnanos, h⟩ := Option.bind_eq_some_iff.1 h
    obtain ⟨⟨offset, _⟩, hoffset, h⟩ := Option.bind_eq_some_iff.1 h
    simp only at h
    split at h
    · exact ofParts?_valid (parseFraction?_lt hnanos) (parseOffset?_dvd hoffset) h
    · cases h

end Timestamp

/-! ### What is read from fields -/

namespace Json

variable {α : Type} {decode : Json → Option α} {key : String} {fields : List (String × Json)}

theorem exists_of_required? {a : α} (h : required? decode key fields = some a) :
    ∃ v, decode v = some a := by
  obtain ⟨v, -, hv⟩ := Option.bind_eq_some_iff.1 h
  exact ⟨v, hv⟩

theorem exists_of_optional? {a : α} (h : optional? decode key fields = some (some a)) :
    ∃ v, decode v = some a := by
  unfold optional? at h
  split at h
  · cases h
  · cases h
  · obtain ⟨b, hb, heq⟩ := Option.map_eq_some_iff.1 h
    cases heq
    exact ⟨_, hb⟩

theorem exists_of_defaulted? {default a : α} (h : defaulted? default decode key fields = some a) :
    a = default ∨ ∃ v, decode v = some a := by
  unfold defaulted? at h
  split at h
  · exact .inl (Option.some.inj h).symm
  · exact .inr ⟨_, h⟩

/-- Every element of a list that is read was read from some value. -/
theorem exists_of_mapM {items : List Json} {l : List α} (h : items.mapM decode = some l) :
    ∀ a ∈ l, ∃ v, decode v = some a := by
  induction items generalizing l with
  | nil =>
    cases h
    exact fun _ hmem => nomatch hmem
  | cons v items ih =>
    rw [List.mapM_cons] at h
    obtain ⟨first, hfirst, h⟩ := Option.bind_eq_some_iff.1 h
    obtain ⟨rest, hrest, h⟩ := Option.bind_eq_some_iff.1 h
    obtain rfl := Option.some.inj h
    intro a ha
    rcases List.mem_cons.1 ha with rfl | ha
    · exact ⟨v, hfirst⟩
    · exact ih hrest a ha

theorem exists_of_toList? {l : List α} {v : Json} (h : toList? decode v = some l) :
    ∀ a ∈ l, ∃ v, decode v = some a := by
  unfold toList? at h
  split at h
  · exact exists_of_mapM h
  · cases h

theorem valid_of_toTimestamp? {v : Json} {t : Timestamp} (h : toTimestamp? v = some t) :
    t.Valid := by
  unfold toTimestamp? at h
  split at h
  · exact Timestamp.valid_of_parse? h
  · cases h

theorem toTimestamp?_text {t : Timestamp} (h : t.Valid) : toTimestamp? (.string t.text) = some t :=
  Timestamp.parse?_text h

end Json

/-! ### Bodies with instants -/

/-- The instants of an operation's status exist. -/
def OperationStatus.Timely (s : OperationStatus) : Prop := ∀ t ∈ s.readyTime, t.Valid

theorem OperationStatus.decode?_encode {s : OperationStatus} (h : s.Timely) :
    decode? s.encode = some s := by
  have hphase : toChoice? OperationPhase.names (.string s.phase.name) = some s.phase := by
    cases s.phase <;> rfl
  unfold decode? encode
  refine Option.bind_eq_some_iff.2 ⟨_, rfl, ?_⟩
  refine Option.bind_eq_some_iff.2 ⟨s.phase, defaulted?_eq ?_ hphase, ?_⟩
  · simp [stringField]
  refine Option.bind_eq_some_iff.2 ⟨s.ownerTransferable,
    defaulted?_eq (v := .bool s.ownerTransferable) ?_ rfl, ?_⟩
  · simp [stringField]
  refine Option.bind_eq_some_iff.2 ⟨s.readyTime, optional?_eq_self ?_
    (fun t ht => toTimestamp?_text (h t ht)) (fun _ _ => Json.noConfusion), rfl⟩
  simp [stringField]

/-- What is read as an operation's status has valid instants. -/
theorem OperationStatus.timely_of_decode? {v : Json} {s : OperationStatus}
    (h : decode? v = some s) : s.Timely := by
  unfold decode? at h
  obtain ⟨fields, -, h⟩ := Option.bind_eq_some_iff.1 h
  iterate 2 obtain ⟨_, -, h⟩ := Option.bind_eq_some_iff.1 h
  obtain ⟨readyTime, hready, h⟩ := Option.bind_eq_some_iff.1 h
  obtain rfl := Option.some.inj h
  rintro t (rfl : readyTime = some t)
  obtain ⟨v, hv⟩ := exists_of_optional? hready
  exact valid_of_toTimestamp? hv

theorem Condition.valid_of_decode? {v : Json} {c : Condition} (h : decode? v = some c) :
    c.lastTransitionTime.Valid := by
  unfold decode? at h
  obtain ⟨fields, -, h⟩ := Option.bind_eq_some_iff.1 h
  iterate 4 obtain ⟨_, -, h⟩ := Option.bind_eq_some_iff.1 h
  obtain ⟨time, htime, h⟩ := Option.bind_eq_some_iff.1 h
  obtain rfl := Option.some.inj h
  obtain ⟨v, hv⟩ := exists_of_required? htime
  exact valid_of_toTimestamp? hv

theorem RequirementStatus.decode?_encode {s : RequirementStatus} (h : s.Timely) :
    decode? s.encode = some s := by
  have hphase : toChoice? RequirementPhase.names (.string s.phase.name) = some s.phase := by
    cases s.phase <;> rfl
  have hconditions : toList? Condition.decode? (.array (s.conditions.map Condition.encode)) =
      some (s.conditions.map id) := toList?_map fun c hc => Condition.decode?_encode (h c hc)
  rw [List.map_id] at hconditions
  have hoperation {fields : List (String × Json)}
      (hfield : lookup? "operationName" fields = some (ofString? s.operationName)) :
      optional? toString? "operationName" fields = some s.operationName := by
    unfold optional?
    rw [hfield]
    cases s.operationName with
    | none => rfl
    | some name => rfl
  unfold decode? encode
  refine Option.bind_eq_some_iff.2 ⟨_, rfl, ?_⟩
  refine Option.bind_eq_some_iff.2 ⟨s.phase, defaulted?_eq ?_ hphase, ?_⟩
  · simp [stringField]
  refine Option.bind_eq_some_iff.2 ⟨s.key, optional?_text ?_, ?_⟩
  · simp [stringField, lookup?_append]
  refine Option.bind_eq_some_iff.2 ⟨s.operationName, hoperation ?_, ?_⟩
  · simp [stringField, lookup?_append]
  refine Option.bind_eq_some_iff.2 ⟨s.conditions, defaulted?_eq ?_ hconditions, ?_⟩
  · simp [stringField, lookup?_append]
  refine Option.bind_eq_some_iff.2 ⟨s.observedGeneration, optional?_int64 ?_, rfl⟩
  simp [stringField, lookup?_append]

theorem RequirementStatus.timely_of_decode? {v : Json} {s : RequirementStatus}
    (h : decode? v = some s) : s.Timely := by
  unfold decode? at h
  obtain ⟨fields, -, h⟩ := Option.bind_eq_some_iff.1 h
  iterate 3 obtain ⟨_, -, h⟩ := Option.bind_eq_some_iff.1 h
  obtain ⟨conditions, hconditions, h⟩ := Option.bind_eq_some_iff.1 h
  obtain ⟨_, -, h⟩ := Option.bind_eq_some_iff.1 h
  obtain rfl := Option.some.inj h
  intro c hc
  rcases exists_of_defaulted? hconditions with rfl | ⟨v, hv⟩
  · cases hc
  · obtain ⟨w, hw⟩ := exists_of_toList? hv c hc
    exact Condition.valid_of_decode? hw

/-! ### Bodies of caches -/

@[simp] theorem CacheSpec.decode?_encode (s : CacheSpec) : CacheSpec.decode? s.encode = some s := by
  unfold CacheSpec.decode? CacheSpec.encode
  refine Option.bind_eq_some_iff.2 ⟨_, rfl, ?_⟩
  refine Option.bind_eq_some_iff.2 ⟨s.template, required?_eq rfl s.template.decode?_encode, ?_⟩
  refine Option.bind_eq_some_iff.2 ⟨s.keepAliveCount,
    required?_eq rfl (toUInt32?_ofUInt32 s.keepAliveCount), ?_⟩
  exact Option.bind_eq_some_iff.2 ⟨s.keepAliveDuration,
    required?_eq (v := .string s.keepAliveDuration) rfl rfl, rfl⟩

@[simp] theorem CacheStatus.decode?_encode (s : CacheStatus) :
    CacheStatus.decode? s.encode = some s := by
  unfold CacheStatus.decode? CacheStatus.encode
  refine Option.bind_eq_some_iff.2 ⟨_, rfl, ?_⟩
  refine Option.bind_eq_some_iff.2 ⟨s.key, optional?_text ?_, ?_⟩
  · simp [lookup?_append]
  refine Option.bind_eq_some_iff.2 ⟨s.keepAliveCount,
    defaulted?_eq ?_ (toUInt32?_ofUInt32 s.keepAliveCount), ?_⟩
  · rw [lookup?_append, lookup?_optionalField, if_neg (by decide)]
    rfl
  refine Option.bind_eq_some_iff.2 ⟨s.operations,
    defaulted?_eq ?_ (toStrings?_ofStrings s.operations), rfl⟩
  simp [lookup?_append]

/-! ### All bodies -/

/--
Reading undoes writing for the proper values, and what is read, however it was written, is proper
and the same once it is written and read again.
-/
structure ReadsBack {α : Type} (decode? : Json → Option α) (encode : α → Json) (proper : α → Prop) :
    Prop where
  written : ∀ a, proper a → decode? (encode a) = some a
  read : ∀ v a, decode? v = some a → proper a ∧ decode? (encode a) = some a

section ReadsBack

variable {α : Type} {decode? : Json → Option α} {encode : α → Json} {proper : α → Prop}

theorem ReadsBack.of_proper (hwritten : ∀ a, proper a → decode? (encode a) = some a)
    (hread : ∀ v a, decode? v = some a → proper a) : ReadsBack decode? encode proper :=
  ⟨hwritten, fun v a hv => ⟨hread v a hv, hwritten a (hread v a hv)⟩⟩

theorem ReadsBack.of_all (h : ∀ a, decode? (encode a) = some a) :
    ReadsBack decode? encode fun _ => True := .of_proper (fun a _ => h a) fun _ _ _ => trivial

end ReadsBack

/--
The body of every resource and every condition reads back as it was written, provided its instants
exist. A body that is read has only such instants, and stays the same when it is written and read
again, whatever unknown fields it had, whichever fields were left out or null, and whether it was an
object or an array.
-/
theorem bodies_read_back :
    ReadsBack RequirementSpec.decode? RequirementSpec.encode (fun _ => True) ∧
    ReadsBack RequirementStatus.decode? RequirementStatus.encode RequirementStatus.Timely ∧
    ReadsBack CacheSpec.decode? CacheSpec.encode (fun _ => True) ∧
    ReadsBack CacheStatus.decode? CacheStatus.encode (fun _ => True) ∧
    ReadsBack Template.decode? Template.encode (fun _ => True) ∧
    ReadsBack OperationStatus.decode? OperationStatus.encode OperationStatus.Timely ∧
    ReadsBack Condition.decode? Condition.encode (fun c => c.lastTransitionTime.Valid) :=
  ⟨.of_all RequirementSpec.decode?_encode,
    .of_proper (fun _ => RequirementStatus.decode?_encode) fun _ _ =>
      RequirementStatus.timely_of_decode?,
    .of_all CacheSpec.decode?_encode, .of_all CacheStatus.decode?_encode,
    .of_all Template.decode?_encode,
    .of_proper (fun _ => OperationStatus.decode?_encode) fun _ _ =>
      OperationStatus.timely_of_decode?,
    .of_proper (fun _ => Condition.decode?_encode) fun _ _ => Condition.valid_of_decode?⟩

end WarmPool
