import WarmPool.Number.Decimal
import WarmPool.Proofs.Number.Rounding

/-!
# The shortest decimal determines its number

The shortest decimal of a number lies in the interval of the reals that round to that number
(`Binary64.holds_shortest`), and the intervals of distinct numbers are apart
(`Binary64.parts_eq_of_holds`). So distinct magnitudes have decimals of distinct value
(`Binary64.eq_of_shortest`).
-/

namespace WarmPool

/-- A power of ten below a power of two, for exponents somewhat further apart than needed. -/
theorem ten_zpow_le_two_zpow {k l : ℤ} (hnonneg : 0 ≤ l → 10 * k ≤ 3 * l)
    (hneg : l < 0 → 23 * k ≤ 7 * l) : (10 : ℚ) ^ k ≤ 2 ^ l := by
  have hten : (0 : ℚ) ≤ 10 ^ k := by positivity
  have htwo : (0 : ℚ) ≤ 2 ^ l := by positivity
  rcases le_or_gt 0 l with hl | hl
  · -- `10 ^ 3 ≤ 2 ^ 10`
    refine le_of_pow_le_pow_left₀ (n := 10) (by norm_num) htwo ?_
    calc ((10 : ℚ) ^ k) ^ 10 = 10 ^ (10 * k) := by rw [← zpow_natCast, ← zpow_mul]; congr 1; ring
      _ ≤ 10 ^ (3 * l) := zpow_le_zpow_right₀ (by norm_num) (hnonneg hl)
      _ = ((10 : ℚ) ^ (3 : ℤ)) ^ l := by rw [← zpow_mul]
      _ ≤ ((2 : ℚ) ^ (10 : ℤ)) ^ l := zpow_le_zpow_left₀ hl (by norm_num) (by norm_num)
      _ = ((2 : ℚ) ^ l) ^ 10 := by rw [← zpow_natCast, ← zpow_mul, ← zpow_mul]; congr 1; ring
  · -- `2 ^ 23 ≤ 10 ^ 7`
    refine le_of_pow_le_pow_left₀ (n := 23) (by norm_num) htwo ?_
    calc ((10 : ℚ) ^ k) ^ 23 = 10 ^ (23 * k) := by rw [← zpow_natCast, ← zpow_mul]; congr 1; ring
      _ ≤ 10 ^ (7 * l) := zpow_le_zpow_right₀ (by norm_num) (hneg hl)
      _ = ((10 : ℚ) ^ (7 : ℤ)) ^ l := by rw [← zpow_mul]
      _ ≤ ((2 : ℚ) ^ (23 : ℤ)) ^ l := by
        have hflip (b : ℚ) : b ^ l = (b ^ (-l))⁻¹ := by rw [zpow_neg, inv_inv]
        rw [hflip, hflip (2 ^ (23 : ℤ))]
        have hpos : (0 : ℚ) < ((2 : ℚ) ^ (23 : ℤ)) ^ (-l) := by positivity
        have hbase : (2 : ℚ) ^ (23 : ℤ) ≤ 10 ^ (7 : ℤ) := by norm_num
        exact inv_anti₀ hpos (zpow_le_zpow_left₀ (by omega) (by norm_num) hbase)
      _ = ((2 : ℚ) ^ l) ^ 23 := by rw [← zpow_natCast, ← zpow_mul, ← zpow_mul]; congr 1; ring

/-- The value of a decimal. -/
def Decimal.amount (d : Decimal) : ℚ := d.digits * 10 ^ d.scale

namespace Binary64

variable {x y : Binary64}

/-- What the search for a logarithm to base ten finds is not too great, unless all it tries is. -/
theorem floorLog10_le {num den fuel : ℕ} {start : ℤ} (hden : 0 < den)
    (h : (10 : ℚ) ^ (start - fuel) ≤ num / den) :
    (10 : ℚ) ^ floorLog10 num den fuel start ≤ num / den := by
  induction fuel generalizing start with
  | zero => simpa [floorLog10] using h
  | succ fuel ih =>
    have hreached := @zpow_le_div_iff 10 num den (by norm_num) hden start
    push_cast at hreached
    rw [floorLog10]
    simp only [scaled, neg_neg]
    split
    · rename_i hle
      exact hreached.2 hle
    · refine ih ?_
      rw [show start - 1 - (fuel : ℤ) = start - ((fuel + 1 : ℕ) : ℤ) by push_cast; ring]
      exact h

/-! ### Decimals of a number -/

/-- The lower end of the interval of the reals that round to the number. -/
def low (x : Binary64) : ℚ := x.cell.low * 2 ^ (x.exponent - 2)

/-- The upper end. -/
def high (x : Binary64) : ℚ := x.cell.high * 2 ^ (x.exponent - 2)

/-- A real rounds to the number; the ends do if the significand is even. -/
def Holds (x : Binary64) (r : ℚ) : Prop :=
  if x.cell.closed then x.low ≤ r ∧ r ≤ x.high else x.low < r ∧ r < x.high

theorem Holds.low_le {r : ℚ} (h : x.Holds r) : x.low ≤ r := by
  unfold Holds at h
  split at h
  · exact h.1
  · exact h.1.le

theorem Holds.le_high {r : ℚ} (h : x.Holds r) : r ≤ x.high := by
  unfold Holds at h
  split at h
  · exact h.2
  · exact h.2.le

/-- What is strictly between the ends rounds to the number. -/
theorem holds_of_lt {r : ℚ} (hlow : x.low < r) (hhigh : r < x.high) : x.Holds r := by
  unfold Holds
  split
  · exact ⟨hlow.le, hhigh.le⟩
  · exact ⟨hlow, hhigh⟩

/-- The ends of the interval of a number with an odd significand are outside. -/
theorem Holds.lt_of_odd {r : ℚ} (h : x.Holds r) (hodd : x.significand % 2 = 1) :
    x.low < r ∧ r < x.high := by
  have hopen : x.cell.closed = false := by
    show (x.significand % 2 == 0) = false
    simp [hodd]
  unfold Holds at h
  rw [hopen] at h
  exact h

theorem covers_iff (digits : ℕ) (scale : ℤ) :
    x.cell.covers digits scale = true ↔ x.Holds (Decimal.amount ⟨digits, scale⟩) := by
  have hunit : (2 : ℚ) ^ (x.exponent - 2) = (x.cell.unit.1 : ℚ) / x.cell.unit.2 := by
    rw [← zpow_eq_div (by norm_num)]
    push_cast [cell]
    rfl
  have hscale : (10 : ℚ) ^ scale = ((10 ^ scale.toNat : ℕ) : ℚ) / (10 ^ (-scale).toNat : ℕ) := by
    rw [← zpow_eq_div (by norm_num)]
    push_cast
    rfl
  have hunitPos : 0 < x.cell.unit.2 := Nat.two_pow_pos _
  have hscalePos : 0 < 10 ^ (-scale).toNat := Nat.pow_pos (by norm_num)
  unfold Cell.covers Holds low high Decimal.amount
  rw [hunit, hscale]
  cases x.cell.closed with
  | true =>
    simp only [↓reduceIte, Bool.and_eq_true, decide_eq_true_iff]
    rw [mul_div_le_iff hunitPos hscalePos, mul_div_le_iff hscalePos hunitPos]
  | false =>
    simp only [Bool.false_eq_true, ↓reduceIte, Bool.and_eq_true, decide_eq_true_iff]
    rw [mul_div_lt_iff hunitPos hscalePos, mul_div_lt_iff hscalePos hunitPos]

/-! ### The intervals are apart -/

theorem high_eq (x : Binary64) :
    x.high = (4 * (x.significand : ℚ) + 2) * 2 ^ (x.exponent - 2) := by
  unfold high cell
  push_cast
  rfl

/-- The lower end in quarters of the last place. -/
theorem low_eq (x : Binary64) (h : x.significand ≠ 0) :
    x.low = (4 * (x.significand : ℚ) -
      if x.significand = 2 ^ 52 ∧ x.exponent ≠ -1074 then 1 else 2) * 2 ^ (x.exponent - 2) := by
  have hpos : 1 ≤ x.significand := Nat.pos_of_ne_zero h
  unfold low cell
  simp only
  split
  · rw [Nat.cast_sub (by omega)]
    push_cast
    rfl
  · rw [Nat.cast_sub (by omega)]
    push_cast
    rfl

theorem low_ge (h : x.significand ≠ 0) :
    (4 * (x.significand : ℚ) - 2) * 2 ^ (x.exponent - 2) ≤ x.low := by
  have hunit : (0 : ℚ) ≤ 2 ^ (x.exponent - 2) := by positivity
  rw [low_eq x h]
  refine mul_le_mul_of_nonneg_right ?_ hunit
  split
  · linarith
  · exact le_rfl

theorem low_pos (h : x.significand ≠ 0) : 0 < x.low := by
  have hone : (1 : ℚ) ≤ x.significand := by exact_mod_cast Nat.pos_of_ne_zero h
  have hpos : (0 : ℚ) < (4 * (x.significand : ℚ) - 2) * 2 ^ (x.exponent - 2) := by
    have hfactor : (0 : ℚ) < 4 * (x.significand : ℚ) - 2 := by linarith
    positivity
  exact hpos.trans_le (low_ge h)

/-- The lower end for a significand of full length, where a power of two has the least. -/
theorem low_ge_of_normal (h : 2 ^ 52 ≤ x.significand) (hexponent : x.exponent ≠ -1074) :
    (2 ^ 54 - 1) * (2 : ℚ) ^ (x.exponent - 2) ≤ x.low := by
  rw [low_eq x (by omega)]
  refine mul_le_mul_of_nonneg_right ?_ (by positivity)
  split
  · rename_i hpower
    rw [hpower.1]
    norm_num
  · rename_i hpower
    have hgreater : 2 ^ 52 + 1 ≤ x.significand := by
      rcases Nat.lt_or_ge (2 ^ 52) x.significand with hlt | hle
      · exact hlt
      · exact absurd ⟨Nat.le_antisymm hle h, hexponent⟩ hpower
    have hcast : (2 ^ 52 + 1 : ℚ) ≤ x.significand := by exact_mod_cast hgreater
    linarith

/-- Of two numbers with one exponent, the interval of the lesser one ends before the other's. -/
theorem not_holds_of_significand_lt {r : ℚ} (hexponent : x.exponent = y.exponent)
    (hlt : x.significand < y.significand) (hx : x.Holds r) : ¬ y.Holds r := by
  intro hy
  have hunit : (0 : ℚ) < 2 ^ (y.exponent - 2) := by positivity
  have hhigh := high_eq x
  have hlow := @low_ge y (by omega)
  rw [hexponent] at hhigh
  have hle : (x.significand : ℚ) + 1 ≤ y.significand := by exact_mod_cast hlt
  have hends : x.high ≤ y.low := by
    rw [hhigh]
    refine le_trans (mul_le_mul_of_nonneg_right ?_ hunit.le) hlow
    linarith
  rcases Nat.lt_or_ge (x.significand + 1) y.significand with hgap | hnext
  · -- There is a number in between.
    have hgap' : (x.significand : ℚ) + 2 ≤ y.significand := by exact_mod_cast hgap
    have hends' : x.high < y.low := by
      rw [hhigh]
      refine lt_of_lt_of_le (mul_lt_mul_of_pos_right ?_ hunit) hlow
      linarith
    exact absurd (hx.le_high.trans_lt hends') (not_lt.2 hy.low_le)
  · -- Of two neighbours one is odd, and the end between them is not its own.
    rcases Nat.mod_two_eq_zero_or_one x.significand with heven | hodd
    · have hodd : y.significand % 2 = 1 := by omega
      exact absurd (hx.le_high.trans hends) (not_le.2 (hy.lt_of_odd hodd).1)
    · exact absurd ((hx.lt_of_odd hodd).2.trans_le hends) (not_lt.2 hy.low_le)

/-- The interval of a number with a lesser exponent ends before the other's. -/
theorem not_holds_of_exponent_lt {r : ℚ} (hlt : x.exponent < y.exponent) (hx : x.Holds r) :
    ¬ y.Holds r := by
  intro hy
  have hge := x.exponent_ge
  have haligned : 2 ^ 52 ≤ y.significand := y.aligned.resolve_left (by omega)
  have hunit : (0 : ℚ) < 2 ^ (x.exponent - 2) := by positivity
  have hdouble : 2 * (2 : ℚ) ^ (x.exponent - 2) ≤ 2 ^ (y.exponent - 2) := by
    have hsplit : 2 * (2 : ℚ) ^ (x.exponent - 2) = 2 ^ (x.exponent - 2 + 1) := by
      rw [zpow_add_one₀ (by norm_num), mul_comm]
    rw [hsplit]
    exact zpow_le_zpow_right₀ (by norm_num) (by omega)
  -- The ends meet at most where a power of two begins, below which the last significand is odd.
  have hlow : (2 ^ 55 - 2) * (2 : ℚ) ^ (x.exponent - 2) ≤ y.low :=
    calc (2 ^ 55 - 2) * (2 : ℚ) ^ (x.exponent - 2)
        = (2 ^ 54 - 1) * (2 * (2 : ℚ) ^ (x.exponent - 2)) := by ring
      _ ≤ (2 ^ 54 - 1) * 2 ^ (y.exponent - 2) :=
        mul_le_mul_of_nonneg_left hdouble (by norm_num)
      _ ≤ y.low := low_ge_of_normal haligned (by omega)
  have hhigh {k : ℚ} (hk : (x.significand : ℚ) ≤ k) :
      x.high ≤ (4 * k + 2) * 2 ^ (x.exponent - 2) := by
    rw [high_eq]
    refine mul_le_mul_of_nonneg_right ?_ hunit.le
    linarith
  have hbound := x.significand_lt
  rcases Nat.mod_two_eq_zero_or_one x.significand with heven | hodd
  · have hcast : (x.significand : ℚ) ≤ 2 ^ 53 - 2 := by
      have hsum : x.significand + 2 ≤ 2 ^ 53 := by omega
      have hsum' : (x.significand : ℚ) + 2 ≤ 2 ^ 53 := by exact_mod_cast hsum
      linarith
    have hends : x.high < (2 ^ 55 - 2) * (2 : ℚ) ^ (x.exponent - 2) :=
      (hhigh hcast).trans_lt (mul_lt_mul_of_pos_right (by norm_num) hunit)
    exact absurd (hx.le_high.trans_lt (hends.trans_le hlow)) (not_lt.2 hy.low_le)
  · have hcast : (x.significand : ℚ) ≤ 2 ^ 53 - 1 := by
      have hsum : x.significand + 1 ≤ 2 ^ 53 := by omega
      have hsum' : (x.significand : ℚ) + 1 ≤ 2 ^ 53 := by exact_mod_cast hsum
      linarith
    have hends : x.high ≤ (2 ^ 55 - 2) * (2 : ℚ) ^ (x.exponent - 2) :=
      (hhigh hcast).trans_eq (by ring)
    exact absurd ((hx.lt_of_odd hodd).2.trans_le (hends.trans hlow)) (not_lt.2 hy.low_le)

/-- A real rounds to one magnitude at most. -/
theorem parts_eq_of_holds {r : ℚ} (hx : x.Holds r) (hy : y.Holds r) :
    x.significand = y.significand ∧ x.exponent = y.exponent := by
  rcases lt_trichotomy x.exponent y.exponent with hlt | heq | hgt
  · exact absurd hy (not_holds_of_exponent_lt hlt hx)
  · rcases Nat.lt_trichotomy x.significand y.significand with hlt | hsame | hgt
    · exact absurd hy (not_holds_of_significand_lt heq hlt hx)
    · exact ⟨hsame, heq⟩
    · exact absurd hx (not_holds_of_significand_lt heq.symm hgt hy)
  · exact absurd hx (not_holds_of_exponent_lt hgt hy)

end Binary64

/-! ### Rounding to a grid -/

/-- Dropping zeros at the end changes nothing of the value. -/
theorem Decimal.amount_strip (fuel : ℕ) (d : Decimal) : (d.strip fuel).amount = d.amount := by
  induction fuel generalizing d with
  | zero => rfl
  | succ fuel ih =>
    rw [strip]
    split
    · rename_i h
      have hdigits : (d.digits : ℚ) = 10 * (d.digits / 10 : ℕ) := by
        exact_mod_cast (show d.digits = 10 * (d.digits / 10) by omega)
      rw [ih]
      unfold amount
      rw [hdigits, zpow_add_one₀ (by norm_num)]
      ring
    · rfl

namespace Binary64

variable {x y : Binary64}

theorem scaled_snd_pos (num : ℕ) {den : ℕ} (hden : 0 < den) (shift : ℤ) :
    0 < (scaled num den shift).2 := Nat.mul_pos hden (Nat.pow_pos (by norm_num))

theorem scaled_eq (num den : ℕ) (shift : ℤ) :
    ((scaled num den shift).1 : ℚ) / (scaled num den shift).2 = num / den * 10 ^ shift := by
  unfold scaled
  rw [← zpow_eq_div (by norm_num)]
  push_cast
  rw [mul_div_mul_comm]

/-- The magnitude rounded to a grid of decimals. -/
theorem abs_rounded_sub_le (x : Binary64) (scale : ℤ) :
    |Decimal.amount ⟨roundQuotient (scaled x.magnitude.1 x.magnitude.2 (-scale)).1
        (scaled x.magnitude.1 x.magnitude.2 (-scale)).2, scale⟩ - x.size| ≤ 10 ^ scale / 2 := by
  have hgrid : (0 : ℚ) < 10 ^ scale := by positivity
  have hnear := @abs_roundQuotient_sub_le (scaled x.magnitude.1 x.magnitude.2 (-scale)).1 _
    (scaled_snd_pos x.magnitude.1 x.magnitude_snd_pos (-scale))
  rw [scaled_eq, magnitude_eq_size] at hnear
  have hsize : x.size = x.size * 10 ^ (-scale) * 10 ^ scale := by
    rw [zpow_neg]
    field_simp
  unfold Decimal.amount
  rw [hsize, ← sub_mul, abs_mul, abs_of_pos hgrid]
  calc _ ≤ 1 / 2 * (10 : ℚ) ^ scale := mul_le_mul_of_nonneg_right hnear hgrid.le
    _ = 10 ^ scale / 2 := by ring

/-- A grid with seventeen digits has the number rounded to it inside the interval. -/
theorem holds_of_fine {scale : ℤ} (hzero : x.significand ≠ 0)
    (hfine : (10 : ℚ) ^ (scale + 16) ≤ x.size) :
    x.Holds (Decimal.amount ⟨roundQuotient (scaled x.magnitude.1 x.magnitude.2 (-scale)).1
      (scaled x.magnitude.1 x.magnitude.2 (-scale)).2, scale⟩) := by
  have hnear := abs_le.1 (abs_rounded_sub_le x scale)
  have hunit : (0 : ℚ) < 2 ^ (x.exponent - 2) := by positivity
  have hsize : x.size = 4 * (x.significand * 2 ^ (x.exponent - 2)) := by
    have hexponent : x.exponent = x.exponent - 2 + 1 + 1 := by ring
    unfold size
    conv_lhs => rw [hexponent, zpow_add_one₀ (by norm_num), zpow_add_one₀ (by norm_num)]
    ring
  have hgrid : (10 : ℚ) ^ scale * 10 ^ 16 ≤ x.size := by
    rw [zpow_add₀ (by norm_num)] at hfine
    exact hfine
  have hbound : (x.significand : ℚ) * 2 ^ (x.exponent - 2) ≤ 2 ^ 53 * 2 ^ (x.exponent - 2) := by
    refine mul_le_mul_of_nonneg_right ?_ hunit.le
    exact_mod_cast x.significand_lt.le
  -- Half a step of the grid is less than half of the last place.
  have hhigh : x.size + 10 ^ scale / 2 < x.high := by
    rw [high_eq, add_mul, mul_assoc]
    linarith
  have hlow : x.low < x.size - 10 ^ scale / 2 := by
    rw [low_eq x hzero, sub_mul, mul_assoc]
    split
    · -- Below a power of two the interval ends after half of that.
      rename_i hpower
      rw [hpower.1] at hsize ⊢
      push_cast at hsize ⊢
      linarith
    · linarith
  exact holds_of_lt (by linarith) (by linarith)

/-- What is found on a grid rounds to the number. -/
theorem holds_onGrid? {scale : ℤ} {d : Decimal} (h : x.onGrid? scale = some d) :
    x.Holds d.amount := by
  unfold onGrid? at h
  simp only at h
  split at h
  · rename_i hbelow habove
    rw [← Option.some.inj h]
    rcases roundQuotient_eq_or (scaled x.magnitude.1 x.magnitude.2 (-scale)).1
      (scaled x.magnitude.1 x.magnitude.2 (-scale)).2 with hround | hround
    · rw [hround]
      exact (covers_iff _ _).1 hbelow
    · rw [hround]
      exact (covers_iff _ _).1 habove
  · rename_i hbelow _
    rw [← Option.some.inj h]
    exact (covers_iff _ _).1 hbelow
  · rename_i habove
    rw [← Option.some.inj h]
    exact (covers_iff _ _).1 habove
  · cases h

theorem holds_firstGrid {fuel : ℕ} {scale : ℤ} (hzero : x.significand ≠ 0)
    (hfine : (10 : ℚ) ^ (scale - fuel + 16) ≤ x.size) :
    x.Holds (x.firstGrid fuel scale).amount := by
  induction fuel generalizing scale with
  | zero =>
    rw [Nat.cast_zero, sub_zero] at hfine
    exact holds_of_fine hzero hfine
  | succ fuel ih =>
    rw [firstGrid]
    cases hgrid : x.onGrid? scale with
    | some d => exact holds_onGrid? hgrid
    | none =>
      refine ih ?_
      rw [show scale - 1 - (fuel : ℤ) = scale - ((fuel + 1 : ℕ) : ℤ) by push_cast; ring]
      exact hfine

/-! ### The shortest decimal -/

/-- The logarithm of a magnitude to base two. -/
theorem floorLog2_bounds (h : x.significand ≠ 0) :
    -1074 ≤ floorLog2 x.magnitude.1 x.magnitude.2 ∧
      floorLog2 x.magnitude.1 x.magnitude.2 ≤ 1023 := by
  obtain ⟨hlow, hhigh⟩ := floorLog2_spec (magnitude_fst_ne_zero h) x.magnitude_snd_pos.ne'
  rw [magnitude_eq_size] at hlow hhigh
  have hone : (1 : ℚ) ≤ x.significand := by exact_mod_cast Nat.pos_of_ne_zero h
  have hbelow : (x.significand : ℚ) < 2 ^ 53 := by exact_mod_cast x.significand_lt
  have hleast : (2 : ℚ) ^ (-1074 : ℤ) ≤ x.size := by
    have hexponent : (2 : ℚ) ^ (-1074 : ℤ) ≤ 2 ^ x.exponent :=
      zpow_le_zpow_right₀ (by norm_num) x.exponent_ge
    unfold size
    exact hexponent.trans (le_mul_of_one_le_left (by positivity) hone)
  have hgreatest : x.size < (2 : ℚ) ^ (1024 : ℤ) := by
    have hexponent : (2 : ℚ) ^ x.exponent ≤ 2 ^ (971 : ℤ) :=
      zpow_le_zpow_right₀ (by norm_num) x.exponent_le
    calc x.size = x.significand * 2 ^ x.exponent := rfl
      _ < 2 ^ 53 * 2 ^ x.exponent := mul_lt_mul_of_pos_right hbelow (by positivity)
      _ ≤ 2 ^ 53 * 2 ^ (971 : ℤ) := mul_le_mul_of_nonneg_left hexponent (by positivity)
      _ = 2 ^ (1024 : ℤ) := by rw [← zpow_natCast, ← zpow_add₀ (by norm_num)]; rfl
  have hleft := (zpow_lt_zpow_iff_right₀ (by norm_num)).1 (hleast.trans_lt hhigh)
  have hright := (zpow_lt_zpow_iff_right₀ (by norm_num)).1 (hlow.trans_lt hgreatest)
  omega

/-- The shortest decimal of a number other than zero rounds to it. -/
theorem holds_shortest (h : x.significand ≠ 0) : x.Holds x.shortest.amount := by
  have hbounds := floorLog2_bounds h
  have hlog := (floorLog2_spec (magnitude_fst_ne_zero h) x.magnitude_snd_pos.ne').1
  unfold shortest
  rw [if_neg h]
  simp only
  rw [Decimal.amount_strip]
  refine holds_firstGrid h ?_
  rw [Nat.cast_ofNat, sub_add_cancel, ← magnitude_eq_size]
  refine floorLog10_le x.magnitude_snd_pos (le_trans (ten_zpow_le_two_zpow ?_ ?_) hlog)
  · push_cast
    omega
  · push_cast
    omega

theorem shortest_of_zero (h : x.significand = 0) : x.shortest = ⟨0, 0⟩ := if_pos h

/-- The shortest decimal of a number other than zero has digits other than zero. -/
theorem shortest_digits_ne_zero (h : x.significand ≠ 0) : x.shortest.digits ≠ 0 := by
  intro hzero
  have hpos := (low_pos h).trans_le (holds_shortest h).low_le
  unfold Decimal.amount at hpos
  rw [hzero] at hpos
  simp at hpos

/-- Numbers with one sign and shortest decimals of one value are the same. -/
theorem eq_of_shortest (hsign : x.negative = y.negative)
    (h : x.shortest.amount = y.shortest.amount) : x = y := by
  have hzero {z : Binary64} (hz : z.significand = 0) : z.shortest.amount = 0 := by
    rw [shortest_of_zero hz]
    simp [Decimal.amount]
  have hpos {z : Binary64} (hz : z.significand ≠ 0) : 0 < z.shortest.amount :=
    (low_pos hz).trans_le (holds_shortest hz).low_le
  have hparts : x.significand = y.significand ∧ x.exponent = y.exponent := by
    by_cases hx : x.significand = 0
    · by_cases hy : y.significand = 0
      · -- Zero has the least exponent.
        have hxAligned := x.aligned
        have hyAligned := y.aligned
        omega
      · exact absurd (h.symm.trans (hzero hx)) (hpos hy).ne'
    · by_cases hy : y.significand = 0
      · exact absurd (h.trans (hzero hy)) (hpos hx).ne'
      · exact parts_eq_of_holds (holds_shortest hx) (h ▸ holds_shortest hy)
  cases x
  cases y
  simp only at hsign hparts
  simp [hsign, hparts]

end Binary64

end WarmPool
