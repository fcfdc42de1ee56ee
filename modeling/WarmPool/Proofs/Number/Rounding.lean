import Mathlib.Algebra.Order.Field.Power
import Mathlib.Algebra.Order.Field.Rat
import Mathlib.Tactic.FieldSimp
import Mathlib.Tactic.Linarith
import Mathlib.Tactic.NormNum
import Mathlib.Tactic.Positivity
import Mathlib.Tactic.Ring
import WarmPool.Number.Binary64

/-!
# How far rounding goes

A quotient is rounded to the nearest natural number (`abs_roundQuotient_sub_le`), and a rational to
the nearest number of its binade: the exponent follows from the logarithm
(`Binary64.floorLog2_spec`), and the significand is a rounded quotient. So a rational that is above
a power of two by less than half of the last place there comes down to that power
(`Binary64.size_le_two_zpow`). All values here are exact rationals.
-/

namespace WarmPool

/-! ### Powers with an integer exponent -/

/-- A power as the quotient of two with natural exponents. -/
theorem zpow_eq_div {b : ℚ} (hb : b ≠ 0) (s : ℤ) : b ^ s.toNat / b ^ (-s).toNat = b ^ s := by
  have hs : s = (s.toNat : ℤ) - ((-s).toNat : ℤ) := by omega
  conv_rhs => rw [hs, zpow_sub₀ hb, zpow_natCast, zpow_natCast]

section

variable {a b p q u v : ℕ}

/-- Multiples of two quotients are compared by cross multiplication. -/
theorem mul_div_le_iff (hq : 0 < q) (hv : 0 < v) :
    (a : ℚ) * (p / q) ≤ b * (u / v) ↔ a * p * v ≤ b * u * q := by
  have hq' : (0 : ℚ) < q := by exact_mod_cast hq
  have hv' : (0 : ℚ) < v := by exact_mod_cast hv
  rw [← mul_div_assoc, ← mul_div_assoc, div_le_div_iff₀ hq' hv']
  norm_cast

theorem mul_div_lt_iff (hq : 0 < q) (hv : 0 < v) :
    (a : ℚ) * (p / q) < b * (u / v) ↔ a * p * v < b * u * q := by
  rw [← not_le, ← not_le, mul_div_le_iff hv hq]

/-- A power is compared with a quotient by cross multiplication. -/
theorem zpow_le_div_iff (hb : 0 < b) (hq : 0 < q) (s : ℤ) :
    (b : ℚ) ^ s ≤ p / q ↔ q * b ^ s.toNat ≤ p * b ^ (-s).toNat := by
  have hb' : (b : ℚ) ≠ 0 := by exact_mod_cast hb.ne'
  have hcompare := @mul_div_le_iff 1 1 (b ^ s.toNat) (b ^ (-s).toNat) p q (Nat.pow_pos hb) hq
  rw [← zpow_eq_div hb']
  push_cast at hcompare
  rw [one_mul, one_mul, one_mul, one_mul] at hcompare
  rw [hcompare, Nat.mul_comm q]

end

/-! ### Rounding to a natural number -/

/-- The quotient rounded is the quotient rounded down, or one more. -/
theorem roundQuotient_eq_or (num den : ℕ) :
    roundQuotient num den = num / den ∨ roundQuotient num den = num / den + 1 := by
  unfold roundQuotient
  simp only
  split
  · exact .inl rfl
  · split
    · exact .inr rfl
    · rcases Nat.mod_two_eq_zero_or_one (num / den) with h | h
      · exact .inl (by omega)
      · exact .inr (by omega)

/-- The quotient rounded is within one half of the quotient. -/
theorem abs_roundQuotient_sub_le {num den : ℕ} (hden : 0 < den) :
    |(roundQuotient num den : ℚ) - num / den| ≤ 1 / 2 := by
  have hdenPos : (0 : ℚ) < den := by exact_mod_cast hden
  have hdivision := Nat.div_add_mod num den
  have hmod := Nat.mod_lt num hden
  -- In whole numbers: twice the rounded quotient times `den` is off by `den` at most.
  have hbounds : 2 * (den * roundQuotient num den) ≤ 2 * num + den ∧
      2 * num ≤ 2 * (den * roundQuotient num den) + den := by
    have hnext : den * (num / den + 1) = den * (num / den) + den := Nat.mul_succ _ _
    unfold roundQuotient
    simp only
    split
    · omega
    · split
      · rw [hnext]
        omega
      · rcases Nat.mod_two_eq_zero_or_one (num / den) with h | h
        · rw [h, Nat.add_zero]
          omega
        · rw [h, hnext]
          omega
  have hlow : 2 * ((den : ℚ) * roundQuotient num den) ≤ 2 * num + den := by
    exact_mod_cast hbounds.1
  have hhigh : 2 * (num : ℚ) ≤ 2 * (den * roundQuotient num den) + den := by
    exact_mod_cast hbounds.2
  have hquotient : (num : ℚ) = den * (num / den) := by field_simp
  rw [abs_le]
  constructor
  · refine le_of_mul_le_mul_left ?_ hdenPos
    linarith
  · refine le_of_mul_le_mul_left ?_ hdenPos
    linarith

/-- A quotient that is nearer to a natural number than to the next one is rounded to it at most. -/
theorem roundQuotient_le {num den n : ℕ} (hden : 0 < den) (h : (num : ℚ) / den < n + 1 / 2) :
    roundQuotient num den ≤ n := by
  have hnear := (abs_le.1 (@abs_roundQuotient_sub_le num den hden)).2
  have hlt : (roundQuotient num den : ℚ) < n + 1 := by linarith
  exact Nat.lt_succ_iff.1 (by exact_mod_cast hlt)

namespace Binary64

/-- The magnitude. -/
def size (x : Binary64) : ℚ := x.significand * 2 ^ x.exponent

variable {x : Binary64}

theorem magnitude_snd_pos (x : Binary64) : 0 < x.magnitude.2 := by
  unfold magnitude
  split
  · exact Nat.one_pos
  · exact Nat.two_pow_pos _

theorem magnitude_eq_size (x : Binary64) : (x.magnitude.1 : ℚ) / x.magnitude.2 = x.size := by
  unfold magnitude size
  rw [← zpow_eq_div (by norm_num)]
  by_cases h : 0 ≤ x.exponent
  · have hzero : (-x.exponent).toNat = 0 := by omega
    rw [if_pos h, hzero]
    push_cast
    ring
  · have hzero : x.exponent.toNat = 0 := by omega
    rw [if_neg h, hzero]
    push_cast
    ring

theorem size_pos (h : x.significand ≠ 0) : 0 < x.size := by
  unfold size
  have hpos : (0 : ℚ) < x.significand := by exact_mod_cast Nat.pos_of_ne_zero h
  positivity

theorem magnitude_fst_ne_zero (h : x.significand ≠ 0) : x.magnitude.1 ≠ 0 := by
  intro hzero
  have hsize := size_pos h
  rw [← magnitude_eq_size, hzero] at hsize
  simp at hsize

/-! ### The logarithm -/

/-- The logarithm to base two, rounded down. -/
theorem floorLog2_spec {num den : ℕ} (hnum : num ≠ 0) (hden : den ≠ 0) :
    (2 : ℚ) ^ floorLog2 num den ≤ num / den ∧ (num / den : ℚ) < 2 ^ (floorLog2 num den + 1) := by
  have hdenPos : (0 : ℚ) < den := by exact_mod_cast Nat.pos_of_ne_zero hden
  have hnumLow : (2 : ℚ) ^ num.log2 ≤ num := by exact_mod_cast Nat.log2_self_le hnum
  have hnumHigh : (num : ℚ) < 2 ^ (num.log2 + 1) := by exact_mod_cast Nat.lt_log2_self
  have hdenLow : (2 : ℚ) ^ den.log2 ≤ den := by exact_mod_cast Nat.log2_self_le hden
  have hdenHigh : (den : ℚ) < 2 ^ (den.log2 + 1) := by exact_mod_cast Nat.lt_log2_self
  -- The difference of the logarithms is the logarithm or one more.
  let guess : ℤ := (num.log2 : ℤ) - den.log2
  have hlow : (2 : ℚ) ^ (guess - 1) ≤ num / den := by
    have hsplit : (2 : ℚ) ^ (guess - 1) = 2 ^ num.log2 / 2 ^ (den.log2 + 1) := by
      rw [← zpow_natCast, ← zpow_natCast, ← zpow_sub₀ (by norm_num)]
      congr 1
      push_cast
      ring
    rw [hsplit]
    exact div_le_div₀ (by positivity) hnumLow hdenPos hdenHigh.le
  have hhigh : (num / den : ℚ) < 2 ^ (guess + 1) := by
    have hsplit : (2 : ℚ) ^ (guess + 1) = 2 ^ (num.log2 + 1) / 2 ^ den.log2 := by
      rw [← zpow_natCast, ← zpow_natCast, ← zpow_sub₀ (by norm_num)]
      congr 1
      push_cast
      ring
    rw [hsplit]
    exact div_lt_div₀ hnumHigh hdenLow (by positivity) (by positivity)
  have hreached := @zpow_le_div_iff 2 num den (by norm_num) (Nat.pos_of_ne_zero hden) guess
  push_cast at hreached
  have hguess : floorLog2 num den =
      if (if 0 ≤ guess then den * 2 ^ guess.toNat ≤ num else den ≤ num * 2 ^ (-guess).toNat) then
        guess else guess - 1 := rfl
  have hcondition :
      (if 0 ≤ guess then den * 2 ^ guess.toNat ≤ num else den ≤ num * 2 ^ (-guess).toNat) ↔
        (2 : ℚ) ^ guess ≤ num / den := by
    rw [hreached]
    by_cases hsign : 0 ≤ guess
    · have hzero : (-guess).toNat = 0 := by omega
      rw [if_pos hsign, hzero, pow_zero, mul_one]
    · have hzero : guess.toNat = 0 := by omega
      rw [if_neg hsign, hzero, pow_zero, mul_one]
  rw [hguess]
  by_cases h : (2 : ℚ) ^ guess ≤ num / den
  · rw [if_pos (hcondition.2 h)]
    exact ⟨h, hhigh⟩
  · rw [if_neg (fun hc => h (hcondition.1 hc)), sub_add_cancel]
    exact ⟨hlow, not_le.1 h⟩

/-! ### Rounding to a number -/

section

variable {v : Binary64} {negative : Bool} {num den : ℕ} {k : ℤ}

/-- The last place of the number nearest to `num / den`, as an exponent of two. -/
def lastPlace (num den : ℕ) : ℤ := max (floorLog2 num den - 52) (-1074)

theorem lastPlace_le (hnum : num ≠ 0) (hden : den ≠ 0) (hk : -1074 ≤ k)
    (h : (num / den : ℚ) < 2 ^ (k + 1)) : lastPlace num den ≤ k := by
  have hlog : floorLog2 num den < k + 1 :=
    (zpow_lt_zpow_iff_right₀ (by norm_num)).1 ((floorLog2_spec hnum hden).1.trans_lt h)
  unfold lastPlace
  omega

theorem le_lastPlace (hnum : num ≠ 0) (hden : den ≠ 0) (h : (2 : ℚ) ^ k ≤ num / den) :
    k - 52 ≤ lastPlace num den := by
  have hlog : k < floorLog2 num den + 1 :=
    (zpow_lt_zpow_iff_right₀ (by norm_num)).1 (h.trans_lt (floorLog2_spec hnum hden).2)
  unfold lastPlace
  omega

/-- A quotient counted in units of a power of two. -/
theorem div_two_zpow_eq (num den : ℕ) (e : ℤ) :
    ((num * 2 ^ (-e).toNat : ℕ) : ℚ) / ((den * 2 ^ e.toNat : ℕ) : ℚ) = num / den / 2 ^ e := by
  have hscale := @zpow_eq_div 2 (by norm_num) (-e)
  rw [neg_neg, zpow_neg] at hscale
  push_cast
  rw [mul_div_mul_comm, hscale, div_eq_mul_inv _ (2 ^ e : ℚ)]

theorem size_zero (negative : Bool) : (zero negative).size = 0 := by
  unfold size zero
  rw [Nat.cast_zero, zero_mul]

/-- The magnitude of the nearest number is the quotient rounded to the last place. -/
theorem size_of_ofRatio? (hnum : num ≠ 0) (h : ofRatio? negative num den = some v) :
    v.size = roundQuotient (num * 2 ^ (-lastPlace num den).toNat)
      (den * 2 ^ (lastPlace num den).toNat) * 2 ^ lastPlace num den := by
  have hparts {significand : ℕ} {exponent : ℤ}
      (hsome : ofParts? negative significand exponent = some v) :
      v.size = significand * 2 ^ exponent := by
    unfold ofParts? at hsome
    split at hsome
    · cases hsome
      rfl
    · cases hsome
  unfold ofRatio? at h
  rw [if_neg hnum] at h
  simp only at h
  split at h
  · -- The significand is that of the next power of two.
    rename_i hfull
    unfold lastPlace
    rw [hparts h, hfull, zpow_add_one₀ (by norm_num)]
    push_cast
    ring
  · exact hparts h

/-- Less than half of the last place above a power of two, a quotient comes down to it. -/
theorem size_le_two_zpow (hk : -1074 ≤ k) (hden : den ≠ 0)
    (h : ofRatio? negative num den = some v) (hlt : (num / den : ℚ) < 2 ^ k + 2 ^ (k - 53)) :
    v.size ≤ 2 ^ k := by
  rcases eq_or_ne num 0 with hzero | hnum
  · unfold ofRatio? at h
    rw [if_pos hzero] at h
    cases h
    rw [size_zero]
    positivity
  have hplace : lastPlace num den ≤ k := by
    refine lastPlace_le hnum hden hk (hlt.trans_le ?_)
    have hsmall : (2 : ℚ) ^ (k - 53) ≤ 2 ^ k := zpow_le_zpow_right₀ (by norm_num) (by omega)
    rw [zpow_add_one₀ (by norm_num)]
    linarith
  have hnear : (num / den : ℚ) < 2 ^ k + 1 / 2 * 2 ^ lastPlace num den := by
    have hunit : (0 : ℚ) < 2 ^ lastPlace num den := by positivity
    rcases lt_or_ge (num / den : ℚ) (2 ^ k) with hbelow | habove
    · linarith
    · have hhalf : (2 : ℚ) ^ (k - 53) ≤ 2 ^ (lastPlace num den - 1) := by
        have hle := le_lastPlace hnum hden habove
        exact zpow_le_zpow_right₀ (by norm_num) (by omega)
      rw [zpow_sub_one₀ (by norm_num)] at hhalf
      linarith
  rw [size_of_ofRatio? hnum h]
  generalize lastPlace num den = e at hplace hnear
  have hunit : (0 : ℚ) < 2 ^ e := by positivity
  -- Counted in last places the power of two is a natural number.
  have hcount : ((2 ^ (k - e).toNat : ℕ) : ℚ) * 2 ^ e = 2 ^ k := by
    have hnonneg : ((k - e).toNat : ℤ) = k - e := Int.toNat_of_nonneg (by omega)
    rw [Nat.cast_pow, ← zpow_natCast, hnonneg, Nat.cast_ofNat, ← zpow_add₀ (by norm_num),
      sub_add_cancel]
  have hround : roundQuotient (num * 2 ^ (-e).toNat) (den * 2 ^ e.toNat) ≤ 2 ^ (k - e).toNat := by
    refine roundQuotient_le (Nat.mul_pos (Nat.pos_of_ne_zero hden) (Nat.two_pow_pos _)) ?_
    rw [div_two_zpow_eq, div_lt_iff₀ hunit, add_mul, hcount]
    exact hnear
  rw [← hcount]
  exact mul_le_mul_of_nonneg_right (by exact_mod_cast hround) hunit.le

end

end Binary64

end WarmPool
