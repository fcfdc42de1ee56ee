import WarmPool.Json.Canonical
import WarmPool.Proofs.Json.Text

/-!
# The canonical text of numbers

A canonical text is meant to tell numbers apart by their values, and it does but at the end of the
signed range. `Number.Collapses` says what a binary64 number becomes: the integer it is, if that is
within the range; the greatest signed integer, if it is `2 ^ 63`; itself otherwise. So the value
changes for one number only, and `Number.Clashes` lists the pairs whose texts disagree with their
values: `2 ^ 63` with the integer below it, and a float from `2 ^ 63` on with the unsigned integer
that it equals (`Number.texts_by_value_iff`).
-/

namespace WarmPool

/-! ### Values of binary64 numbers -/

namespace Binary64

variable {x y : Binary64} {k : ℕ} {i : ℤ}

/-- `2 ^ 63`, one past the signed integers of 64 bits. -/
def signedEnd : Binary64 :=
  ⟨false, 2 ^ 52, 11, two.significand_lt, by decide, by decide, .inr (Nat.le_refl _)⟩

/-- The magnitude with the sign. -/
def value (x : Binary64) : ℚ := if x.negative then -x.size else x.size

theorem size_nonneg (x : Binary64) : 0 ≤ x.size := by
  unfold size
  positivity

theorem abs_value (x : Binary64) : |x.value| = x.size := by
  unfold value
  split
  · rw [abs_neg, abs_of_nonneg x.size_nonneg]
  · rw [abs_of_nonneg x.size_nonneg]

theorem size_eq_natAbs (h : x.value = i) : x.size = i.natAbs := by
  rw [← abs_value, h, Nat.cast_natAbs, Int.cast_abs]

/-- A magnitude is a natural number when its numerator is that multiple of its denominator. -/
theorem size_eq_natCast_iff : x.size = k ↔ x.magnitude.1 = k * x.magnitude.2 := by
  have hden : (x.magnitude.2 : ℚ) ≠ 0 := by exact_mod_cast x.magnitude_snd_pos.ne'
  rw [← magnitude_eq_size, div_eq_iff hden]
  norm_cast

/-- From `2 ^ 53` on the integers among the numbers are even. -/
theorem even_of_size (h : x.size = k) (hlarge : 2 ^ 53 ≤ k) : k % 2 = 0 := by
  have hlt := x.significand_lt
  rw [size_eq_natCast_iff] at h
  unfold magnitude at h
  split at h
  · -- The significand is too short, so the exponent is positive.
    cases hexponent : x.exponent.toNat with
    | zero =>
      rw [hexponent] at h
      omega
    | succ e =>
      rw [hexponent, pow_succ] at h
      have hmul : k = 2 * (x.significand * 2 ^ e) := by
        rw [mul_one] at h
        rw [← h]
        ring
      omega
  · have hle : k ≤ x.significand := (Nat.le_mul_of_pos_right k (Nat.two_pow_pos _)).trans_eq h.symm
    omega

theorem holds_size (h : x.significand ≠ 0) : x.Holds x.size := by
  have hunit : (0 : ℚ) < 2 ^ (x.exponent - 2) := by positivity
  have hsize : x.size = 4 * (x.significand : ℚ) * 2 ^ (x.exponent - 2) := by
    unfold size
    rw [zpow_sub₀ (by norm_num)]
    ring
  refine holds_of_lt ?_ ?_
  · rw [low_eq x h, hsize]
    refine mul_lt_mul_of_pos_right ?_ hunit
    split <;> linarith
  · rw [high_eq, hsize]
    exact mul_lt_mul_of_pos_right (by linarith) hunit

/-- Numbers of one value other than zero are the same. -/
theorem eq_of_value (h : x.value = y.value) (hzero : x.value ≠ 0) : x = y := by
  have hsize : x.size = y.size := by rw [← abs_value, h, abs_value]
  have hnonzero {z : Binary64} (hz : z.value ≠ 0) : z.significand ≠ 0 := by
    intro hsignificand
    refine hz (abs_eq_zero.1 ?_)
    rw [abs_value, size, hsignificand]
    simp
  have hx := hnonzero hzero
  have hparts := parts_eq_of_holds (holds_size hx) (hsize ▸ holds_size (hnonzero (h ▸ hzero)))
  have hpos := size_pos hx
  have hsign : x.negative = y.negative := by
    unfold value at h
    rw [← hsize] at h
    cases hxs : x.negative <;> cases hys : y.negative <;> simp [hxs, hys] at h ⊢ <;> linarith
  cases x
  cases y
  simp only at hsign hparts
  simp [hsign, hparts]

theorem value_signedEnd : signedEnd.value = (2 ^ 63 : ℤ) := by
  norm_num [value, signedEnd, size]

theorem ne_signedEnd (h : x.value = i) (hi : i ≠ 2 ^ 63) : x ≠ signedEnd := by
  rintro rfl
  rw [value_signedEnd, Int.cast_inj] at h
  exact hi h.symm

end Binary64

namespace Number

open Binary64

variable {x y : Binary64} {i : ℤ}

/-! ### Amounts -/

/-- The rational that a number denotes. -/
def amount (n : Number) : ℚ := n.ratio.1 / n.ratio.2

theorem amount_integer (ge : -2 ^ 63 ≤ i) (lt : i < 2 ^ 64) : (integer i ge lt).amount = i := by
  simp [amount, ratio]

theorem amount_float (x : Binary64) : (float x).amount = x.value := by
  show (x.numerator : ℚ) / x.magnitude.2 = x.value
  rw [numerator, value, ← magnitude_eq_size]
  by_cases hsign : x.negative
  · rw [if_pos hsign, if_pos hsign, Int.cast_neg, Int.cast_natCast, neg_div]
  · rw [if_neg hsign, if_neg hsign, Int.cast_natCast]

theorem ratio_snd_pos (n : Number) : 0 < n.ratio.2 := by
  cases n with
  | integer i ge lt => exact Nat.one_pos
  | float x => exact x.magnitude_snd_pos

theorem sameValue_iff (a b : Number) : a.SameValue b ↔ a.amount = b.amount := by
  have hpos (n : Number) : (n.ratio.2 : ℚ) ≠ 0 := by exact_mod_cast n.ratio_snd_pos.ne'
  unfold amount SameValue
  rw [div_eq_div_iff (hpos a) (hpos b)]
  norm_cast

/-! ### What a float becomes -/

/-- What a binary64 number becomes in a canonical text. -/
inductive Collapses (x : Binary64) : Number → Prop
  /-- The integer that it is. -/
  | toInteger {i : ℤ} (ge : -2 ^ 63 ≤ i) (lt : i < 2 ^ 64) (hbelow : i < 2 ^ 63 - 1)
      (hvalue : x.value = i) : Collapses x (.integer i ge lt)
  /-- The greatest signed integer, one less than it is. -/
  | toGreatest (h : x = signedEnd) :
      Collapses x (.integer (2 ^ 63 - 1) (by decide) (by decide))
  /-- Itself, as it is not an integer up to `2 ^ 63`. -/
  | stays (h : ∀ i : ℤ, i.natAbs ≤ 2 ^ 63 → x.value ≠ i) : Collapses x (.float x)

/-- The integral numbers up to `2 ^ 63` are the ones that become integers. -/
theorem whole_iff (x : Binary64) : (x.isIntegral ∧ x.magnitude.1 ≤ 2 ^ 63 * x.magnitude.2) ↔
    ∃ k : ℕ, k ≤ 2 ^ 63 ∧ x.size = k := by
  have hpos := x.magnitude_snd_pos
  constructor
  · rintro ⟨hintegral, hle⟩
    have hmod : x.magnitude.1 % x.magnitude.2 = 0 := by simpa [isIntegral] using hintegral
    refine ⟨x.magnitude.1 / x.magnitude.2, Nat.div_le_of_le_mul (by rwa [mul_comm]), ?_⟩
    rw [size_eq_natCast_iff, Nat.div_mul_cancel (Nat.dvd_of_mod_eq_zero hmod)]
  · rintro ⟨k, hk, hsize⟩
    rw [size_eq_natCast_iff] at hsize
    have hmod : x.magnitude.1 % x.magnitude.2 = 0 := by rw [hsize, Nat.mul_mod_left]
    exact ⟨by simp [isIntegral, hmod], hsize ▸ Nat.mul_le_mul_right _ hk⟩

theorem cast_truncate {k : ℕ} (h : x.size = k) : (x.truncate : ℚ) = x.value := by
  have hquotient : x.magnitude.1 / x.magnitude.2 = k := by
    rw [size_eq_natCast_iff.1 h, Nat.mul_div_cancel _ x.magnitude_snd_pos]
  have htruncate : x.truncate = if x.negative then -(k : ℤ) else k := by rw [← hquotient]; rfl
  rw [htruncate, value, h]
  by_cases hsign : x.negative
  · rw [if_pos hsign, if_pos hsign, Int.cast_neg, Int.cast_natCast]
  · rw [if_neg hsign, if_neg hsign, Int.cast_natCast]

theorem normalize_collapses (x : Binary64) : Collapses x (float x).normalize := by
  by_cases hwhole : x.isIntegral ∧ x.magnitude.1 ≤ 2 ^ 63 * x.magnitude.2
  · obtain ⟨k, hk, hsize⟩ := (whole_iff x).1 hwhole
    have hvalue := (cast_truncate hsize).symm
    have habs : x.truncate.natAbs = k := by exact_mod_cast (size_eq_natAbs hvalue).symm.trans hsize
    have hn : (float x).normalize = (ofInt? (min x.truncate (2 ^ 63 - 1))).getD (.float x) :=
      if_pos hwhole
    by_cases hend : x.truncate = 2 ^ 63
    · obtain rfl : x = signedEnd := by
        refine eq_of_value ?_ ?_
        · rw [hvalue, hend, value_signedEnd]
        · rw [hvalue, hend]
          norm_num
      exact .toGreatest rfl
    · -- The integer below `2 ^ 63` is odd, so no number is equal to it.
      have hodd : x.truncate ≠ 2 ^ 63 - 1 := by
        intro heq
        have heven := even_of_size hsize (by omega)
        omega
      have hmin : min x.truncate (2 ^ 63 - 1) = x.truncate := by omega
      rw [hmin, ofInt?, dif_pos (by omega), Option.getD_some] at hn
      rw [hn]
      exact .toInteger _ _ (by omega) hvalue
  · have hn : (float x).normalize = .float x := if_neg hwhole
    rw [hn]
    exact .stays fun i hi hvalue => hwhole ((whole_iff x).2 ⟨i.natAbs, hi, size_eq_natAbs hvalue⟩)

/-! ### Numbers whose texts disagree with their values -/

/-- A float and an integer whose canonical texts disagree with their values. -/
inductive Clashes : Number → Number → Prop
  /-- They are equal, but the float is too large to become an integer that is not less. -/
  | split {x : Binary64} {i : ℤ} {ge : -2 ^ 63 ≤ i} {lt : i < 2 ^ 64} (hlarge : 2 ^ 63 ≤ i)
      (hsame : (float x).SameValue (integer i ge lt)) : Clashes (.float x) (.integer i ge lt)
  /-- They differ, but the float becomes the integer. -/
  | merged {ge : -2 ^ 63 ≤ (2 ^ 63 - 1 : ℤ)} {lt : (2 ^ 63 - 1 : ℤ) < 2 ^ 64} :
      Clashes (.float signedEnd) (.integer (2 ^ 63 - 1) ge lt)

theorem clashes_iff {ge : -2 ^ 63 ≤ i} {lt : i < 2 ^ 64} :
    Clashes (.float x) (.integer i ge lt) ↔
      2 ^ 63 ≤ i ∧ x.value = i ∨ x = signedEnd ∧ i = 2 ^ 63 - 1 := by
  constructor
  · rintro (⟨hlarge, hsame⟩ | _)
    · rw [sameValue_iff, amount_float, amount_integer] at hsame
      exact .inl ⟨hlarge, hsame⟩
    · exact .inr ⟨rfl, rfl⟩
  · rintro (⟨hlarge, hvalue⟩ | ⟨rfl, rfl⟩)
    · refine .split hlarge ?_
      rw [sameValue_iff, amount_float, amount_integer]
      exact hvalue
    · exact .merged

/-- A float becomes an integer exactly when it is equal to it, but for the pairs that clash. -/
theorem normalize_eq_integer_iff (x : Binary64) (ge : -2 ^ 63 ≤ i) (lt : i < 2 ^ 64) :
    ((float x).normalize = integer i ge lt ↔ x.value = i) ↔
      ¬ Clashes (.float x) (.integer i ge lt) := by
  have hcollapses := normalize_collapses x
  generalize (float x).normalize = n at hcollapses ⊢
  rw [clashes_iff]
  cases hcollapses with
  | toInteger _ _ hbelow hvalue =>
    have hend := ne_signedEnd hvalue (by omega)
    simp only [integer.injEq, hvalue, Int.cast_inj, hend, false_and, or_false, true_iff]
    omega
  | toGreatest h =>
    simp only [integer.injEq, h, value_signedEnd, Int.cast_inj, true_and]
    omega
  | stays h =>
    have hend : x ≠ signedEnd := fun hx => h (2 ^ 63) (by decide) (hx ▸ value_signedEnd)
    have hlarge (hvalue : x.value = i) : 2 ^ 63 ≤ i := by
      by_contra hlt
      exact h i (by omega) hvalue
    simp only [reduceCtorEq, hend]
    tauto

/-- Floats that become one number are equal. -/
theorem Collapses.value_eq {n : Number} (hx : Collapses x n) (hy : Collapses y n) :
    x.value = y.value := by
  cases hx with
  | toInteger _ _ hbelow hvalue =>
    cases hy with
    | toInteger _ _ _ hvalue' => rw [hvalue, hvalue']
    | toGreatest => omega
  | toGreatest h =>
    cases hy with
    | toInteger _ _ hbelow => omega
    | toGreatest h' => rw [h, h']
  | stays => cases hy; rfl

/-- Both zeros become the integer. -/
theorem normalize_of_zero (h : x.value = 0) :
    (float x).normalize = integer 0 (by decide) (by decide) := by
  have hcollapses := normalize_collapses x
  generalize (float x).normalize = n at hcollapses ⊢
  cases hcollapses with
  | toInteger _ _ _ hvalue =>
    obtain rfl : _ = (0 : ℤ) := by exact_mod_cast hvalue.symm.trans h
    rfl
  | toGreatest hx =>
    rw [hx, value_signedEnd] at h
    norm_num at h
  | stays hx => exact absurd h (by exact_mod_cast hx 0 (by decide))

/-- Two floats become the same number exactly when they are equal. -/
theorem normalize_float_eq_iff (x y : Binary64) :
    (float x).normalize = (float y).normalize ↔ x.value = y.value := by
  constructor
  · intro h
    exact (normalize_collapses x).value_eq (h ▸ normalize_collapses y)
  · intro h
    by_cases hzero : x.value = 0
    · rw [normalize_of_zero hzero, normalize_of_zero (h ▸ hzero)]
    · rw [eq_of_value h hzero]

/-- The value changes for one number only. -/
theorem normalize_sameValue_iff (a : Number) :
    a.normalize.SameValue a ↔ a ≠ .float signedEnd := by
  cases a with
  | integer i ge lt =>
    simp only [ne_eq, reduceCtorEq, not_false_eq_true, iff_true]
    rfl
  | float x =>
    have hcollapses := normalize_collapses x
    generalize (float x).normalize = n at hcollapses ⊢
    rw [sameValue_iff, amount_float, ne_eq, float.injEq]
    cases hcollapses with
    | toInteger ge lt hbelow hvalue =>
      have hend := ne_signedEnd hvalue (by omega)
      simp [amount_integer, hvalue, hend]
    | toGreatest h =>
      rw [amount_integer, h, value_signedEnd, Int.cast_inj]
      decide
    | stays h =>
      have hend : x ≠ signedEnd := fun hx => h (2 ^ 63) (by decide) (hx ▸ value_signedEnd)
      simp [amount_float, hend]

theorem canonicalText_eq_iff (a b : Number) :
    (Json.number a).canonicalText = (Json.number b).canonicalText ↔ a.normalize = b.normalize := by
  unfold Json.canonicalText Json.canonicalize
  rw [Json.compact_injective.eq_iff, Json.number.injEq]

/--
Two numbers share a canonical text exactly if they have one value, but for the pairs that clash;
and the number that a canonical text holds is the one it was made from, except for `2 ^ 63`.
-/
theorem texts_by_value_iff (a b : Number) :
    (((Json.number a).canonicalText = (Json.number b).canonicalText ↔ a.SameValue b) ↔
        ¬ Clashes a b ∧ ¬ Clashes b a) ∧
      (a.normalize.SameValue a ↔ a ≠ .float signedEnd) := by
  refine ⟨?_, normalize_sameValue_iff a⟩
  rw [canonicalText_eq_iff, sameValue_iff]
  cases a with
  | integer i ge lt =>
    have hnone : ¬ Clashes (integer i ge lt) b := by rintro ⟨⟩
    cases b with
    | integer j ge' lt' =>
      have hnone' : ¬ Clashes (integer j ge' lt') (integer i ge lt) := by rintro ⟨⟩
      rw [normalize, normalize, amount_integer, amount_integer, integer.injEq, Int.cast_inj]
      exact iff_of_true Iff.rfl ⟨hnone, hnone'⟩
    | float y =>
      rw [amount_integer, amount_float, eq_comm, @eq_comm ℚ, normalize.eq_1,
        normalize_eq_integer_iff]
      exact (and_iff_right hnone).symm
  | float x =>
    cases b with
    | integer j ge lt =>
      have hnone : ¬ Clashes (integer j ge lt) (float x) := by rintro ⟨⟩
      rw [amount_integer, amount_float, normalize.eq_1 j, normalize_eq_integer_iff]
      exact (and_iff_left hnone).symm
    | float y =>
      have hnone (u v : Binary64) : ¬ Clashes (float u) (float v) := by rintro ⟨⟩
      rw [amount_float, amount_float]
      exact iff_of_true (normalize_float_eq_iff x y) ⟨hnone x y, hnone y x⟩

/-- The float `2 ^ 63` has the text of the integer below it, and not that of the integer it is. -/
theorem texts_of_signedEnd :
    ((Json.number (.float signedEnd)).canonicalText = "9223372036854775807" ∧
      (Json.number (.integer (2 ^ 63 - 1) (by decide) (by decide))).canonicalText =
        "9223372036854775807" ∧
      ¬ (float signedEnd).SameValue (.integer (2 ^ 63 - 1) (by decide) (by decide))) ∧
    (Json.number (.integer (2 ^ 63) (by decide) (by decide))).canonicalText =
        "9223372036854775808" ∧
      (float signedEnd).SameValue (.integer (2 ^ 63) (by decide) (by decide)) := by
  decide +kernel

end Number

end WarmPool
