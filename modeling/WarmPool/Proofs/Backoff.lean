import Mathlib.Tactic.SplitIfs
import WarmPool.Backoff
import WarmPool.Proofs.Number.Rounding

/-!
# Where a schedule has a delay

A number of seconds has a duration unless it is below zero or from `2 ^ 64` on
(`Duration.exists_ofBinary64`). No product of numbers that are not below zero is below zero, and
without jitter a delay is cut off at the greatest one, which is no more than `2 ^ 64` seconds even
as a binary64 number (`Duration.size_toExtended`). So a schedule whose multiplier is not below zero
has a delay before each retry, without jitter (`Backoff.exists_baseDelay`). The draw does not
matter then (`Backoff.delay?_eq_baseDelay?`).
-/

namespace WarmPool

variable {b : Backoff} {x y : Extended} {v w : Binary64}

/-! ### Numbers that are not below zero -/

namespace Binary64

theorem not_isBelowZero_of_unsigned (h : v.negative = false) : v.isBelowZero = false := by
  unfold isBelowZero
  rw [h, Bool.false_and]

theorem isBelowZero_eq_false_iff :
    v.isBelowZero = false ↔ v.negative = false ∨ v.significand = 0 := by
  unfold isBelowZero
  rw [Bool.and_eq_false_iff, bne_eq_false_iff_eq]

theorem magnitude_fst_of_zero (h : v.significand = 0) : v.magnitude.1 = 0 := by
  unfold magnitude
  rw [h, Nat.zero_mul]
  split_ifs
  · rfl
  · rfl

/-- The sign of a rounded number is the sign that was asked for. -/
theorem negative_of_ofRatio? {negative : Bool} {num den : Nat}
    (h : ofRatio? negative num den = some v) : v.negative = negative := by
  have hparts : ∀ {significand : Nat} {exponent : Int},
      ofParts? negative significand exponent = some v → v.negative = negative := by
    intro significand exponent hparts
    unfold ofParts? at hparts
    split_ifs at hparts
    cases hparts
    rfl
  unfold ofRatio? at h
  split_ifs at h with hzero
  · cases h
    rfl
  · dsimp only at h
    split_ifs at h
    · exact hparts h
    · exact hparts h

theorem not_isBelowZero_of_ofRatio? {negative : Bool} {num den : Nat}
    (h : ofRatio? negative num den = some v) (hnum : negative = true → num = 0) :
    v.isBelowZero = false := by
  cases negative with
  | false => exact not_isBelowZero_of_unsigned (negative_of_ofRatio? h)
  | true =>
    rw [hnum rfl] at h
    cases h
    rfl

/-- Numbers that are not below zero are compared by their magnitudes. -/
theorem size_lt_of_not_le (hv : v.isBelowZero = false) (hw : w.isBelowZero = false)
    (h : ¬ w ≤ v) : v.size < w.size := by
  have hnumerator {u : Binary64} (hu : u.isBelowZero = false) : u.numerator = u.magnitude.1 := by
    unfold numerator
    split_ifs with hsign
    · rw [magnitude_fst_of_zero
        ((isBelowZero_eq_false_iff.1 hu).resolve_left (by rw [hsign]; decide))]
      rfl
    · rfl
  have hlt : v.numerator * w.magnitude.2 < w.numerator * v.magnitude.2 := not_le.1 h
  have hvPos : (0 : ℚ) < v.magnitude.2 := by exact_mod_cast v.magnitude_snd_pos
  have hwPos : (0 : ℚ) < w.magnitude.2 := by exact_mod_cast w.magnitude_snd_pos
  rw [hnumerator hv, hnumerator hw] at hlt
  rw [← magnitude_eq_size, ← magnitude_eq_size, div_lt_div_iff₀ hvPos hwPos]
  exact_mod_cast hlt

end Binary64

namespace Extended

/-- Not below zero, if it is a number. Infinities do not matter: a delay is cut off there. -/
def NotBelowZero (x : Extended) : Prop := ∀ v, x = finite v → v.isBelowZero = false

/-- A quotient that is rounded to a number is in range. -/
theorem ofRatio?_of_ofRatio {negative : Bool} {num den : Nat}
    (h : ofRatio negative num den = finite v) :
    Binary64.ofRatio? negative num den = some v := by
  unfold ofRatio at h
  split at h
  · next hsome =>
    cases h
    exact hsome
  · cases h

theorem notBelowZero_ofRatio {negative : Bool} {num den : Nat}
    (hnum : negative = true → num = 0) : (ofRatio negative num den).NotBelowZero :=
  fun _ h => Binary64.not_isBelowZero_of_ofRatio? (ofRatio?_of_ofRatio h) hnum

theorem NotBelowZero.mul (hx : x.NotBelowZero) (hy : y.NotBelowZero) : (x * y).NotBelowZero := by
  -- Only the product of two numbers can be a number.
  show (Extended.mul x y).NotBelowZero
  intro v h
  unfold Extended.mul at h
  split at h
  · cases h
  · cases h
  · cases h
  · split_ifs at h
  · split_ifs at h
  · next x y =>
    refine notBelowZero_ofRatio (fun hsign => ?_) v h
    -- Of two numbers with different signs that are not below zero, one is zero.
    rcases Binary64.isBelowZero_eq_false_iff.1 (hx x rfl) with hx | hx
    · rcases Binary64.isBelowZero_eq_false_iff.1 (hy y rfl) with hy | hy
      · rw [hx, hy] at hsign
        cases hsign
      · rw [Binary64.magnitude_fst_of_zero hy, Nat.mul_zero]
    · rw [Binary64.magnitude_fst_of_zero hx, Nat.zero_mul]

theorem NotBelowZero.powLoop {acc base : Extended} (hacc : acc.NotBelowZero)
    (hbase : base.NotBelowZero) (fuel count : Nat) :
    (Extended.powLoop fuel acc base count).NotBelowZero := by
  induction fuel generalizing acc base count with
  | zero => exact hacc
  | succ fuel ih =>
    have hnext : (if count % 2 = 1 then acc * base else acc).NotBelowZero := by
      split_ifs
      · exact hacc.mul hbase
      · exact hacc
    unfold Extended.powLoop
    dsimp only
    by_cases hlast : count / 2 = 0
    · rw [if_pos hlast]
      exact hnext
    · rw [if_neg hlast]
      exact ih hnext (hbase.mul hbase) _

theorem NotBelowZero.pow (hx : x.NotBelowZero) (count : Nat) : (x.pow count).NotBelowZero := by
  have hone : (ofNat 1).NotBelowZero := notBelowZero_ofRatio nofun
  exact hone.powLoop hx _ _

end Extended

/-! ### Durations -/

namespace Duration

theorem seconds_lt (d : Duration) : d.seconds < 2 ^ 64 := by
  have hnanos := d.nanos_lt
  unfold seconds
  unfold nanosPerSecond at hnanos ⊢
  omega

theorem notBelowZero_toExtended (d : Duration) : d.toExtended.NotBelowZero := by
  unfold toExtended
  split
  · exact Extended.notBelowZero_ofRatio nofun
  · exact fun v h => nomatch h

/-- As a binary64 number a duration is `2 ^ 64` seconds at most, for all its roundings. -/
theorem size_toExtended {d : Duration} (h : d.toExtended = .finite v) : v.size ≤ 2 ^ 64 := by
  unfold toExtended at h
  split at h
  · next whole rest hwhole hrest =>
    have hwholeSize : whole.size ≤ 2 ^ (64 : ℤ) := by
      have hseconds : (d.seconds : ℚ) < 2 ^ 64 := by exact_mod_cast d.seconds_lt
      refine Binary64.size_le_two_zpow (by decide) Nat.one_ne_zero hwhole ?_
      norm_num at hseconds ⊢
      linarith
    have hrestSize : rest.size ≤ 2 ^ (0 : ℤ) := by
      have hsubsecond : (d.subsecond : ℚ) < nanosPerSecond := by
        exact_mod_cast Nat.mod_lt d.nanos (by decide)
      have hbelow : (d.subsecond / nanosPerSecond : ℚ) < 1 :=
        (div_lt_one ((Nat.cast_nonneg _).trans_lt hsubsecond)).2 hsubsecond
      refine Binary64.size_le_two_zpow (by decide) (by decide) hrest (hbelow.trans ?_)
      norm_num
    have hv : Binary64.ofRatio? false
        (whole.magnitude.1 * rest.magnitude.2 + rest.magnitude.1 * whole.magnitude.2)
        (whole.magnitude.2 * rest.magnitude.2) = some v := Extended.ofRatio?_of_ofRatio h
    have hwholePos : (0 : ℚ) < whole.magnitude.2 := by exact_mod_cast whole.magnitude_snd_pos
    have hrestPos : (0 : ℚ) < rest.magnitude.2 := by exact_mod_cast rest.magnitude_snd_pos
    -- The sum exceeds the bound by one at most, and half of the last place there is `2 ^ 11`.
    have hsum : v.size ≤ 2 ^ (64 : ℤ) := by
      refine Binary64.size_le_two_zpow (by decide)
        (Nat.mul_pos whole.magnitude_snd_pos rest.magnitude_snd_pos).ne' hv ?_
      push_cast
      rw [mul_comm (rest.magnitude.1 : ℚ), ← div_add_div _ _ hwholePos.ne' hrestPos.ne',
        Binary64.magnitude_eq_size, Binary64.magnitude_eq_size]
      norm_num at hwholeSize hrestSize ⊢
      linarith
    exact_mod_cast hsum
  · cases h

/-- A number below `2 ^ 64` is a second away from it: it is whole or much less. -/
theorem magnitude_fst_le (h : v.size < 2 ^ 64) :
    v.magnitude.1 ≤ (2 ^ 64 - 1) * v.magnitude.2 := by
  rw [← Binary64.magnitude_eq_size] at h
  have hsignificand := v.significand_lt
  unfold Binary64.magnitude at h ⊢
  split_ifs at h ⊢
  · rw [Nat.cast_one, div_one] at h
    have hlt : v.significand * 2 ^ v.exponent.toNat < 2 ^ 64 := by exact_mod_cast h
    dsimp only
    omega
  · have hpos := Nat.two_pow_pos (-v.exponent).toNat
    dsimp only
    omega

/-- Numbers of seconds from zero up to `2 ^ 64` have durations. -/
theorem exists_ofBinary64 (hsign : v.isBelowZero = false) (h : v.size < 2 ^ 64) :
    ∃ d, ofBinary64? v = some d := by
  have hround : roundQuotient (v.magnitude.1 * nanosPerSecond) v.magnitude.2 ≤
      (2 ^ 64 - 1) * nanosPerSecond := by
    have hpos : (0 : ℚ) < v.magnitude.2 := by exact_mod_cast v.magnitude_snd_pos
    have hle : v.magnitude.1 * nanosPerSecond ≤
        (2 ^ 64 - 1) * nanosPerSecond * v.magnitude.2 := by
      rw [Nat.mul_right_comm]
      exact Nat.mul_le_mul_right _ (magnitude_fst_le h)
    have hquotient : ((v.magnitude.1 * nanosPerSecond : ℕ) : ℚ) / v.magnitude.2 ≤
        ((2 ^ 64 - 1) * nanosPerSecond : ℕ) := by
      rw [div_le_iff₀ hpos]
      exact_mod_cast hle
    exact roundQuotient_le v.magnitude_snd_pos
      (hquotient.trans_lt (lt_add_of_pos_right _ one_half_pos))
  have hnanos : roundQuotient (v.magnitude.1 * nanosPerSecond) v.magnitude.2 <
      2 ^ 64 * nanosPerSecond := hround.trans_lt (by decide)
  unfold ofBinary64? ofNanos?
  rw [hsign]
  dsimp only
  rw [dif_pos hnanos]
  exact ⟨_, rfl⟩

end Duration

/-! ### Delays -/

namespace Backoff

theorem exists_capped (h : x.NotBelowZero) : ∃ d, b.capped? x = some d := by
  cases x with
  | undefined => exact ⟨_, rfl⟩
  | infinite s => exact ⟨_, rfl⟩
  | finite v =>
    unfold capped?
    dsimp only
    split
    · next limit hlimit =>
      split_ifs with hcut
      · exact ⟨_, rfl⟩
      · have hlimitSign := b.maxDelay.notBelowZero_toExtended limit hlimit
        have hlt := Binary64.size_lt_of_not_le (h v rfl) hlimitSign hcut
        exact Duration.exists_ofBinary64 (h v rfl) (hlt.trans_le (Duration.size_toExtended hlimit))
    · exact ⟨_, rfl⟩

/-- A multiplier that is not below zero leaves no retry without a delay. -/
theorem exists_baseDelay (h : b.multiplier.NotBelowZero) (attempt : Nat) :
    ∃ d, b.baseDelay? attempt = some d :=
  exists_capped (b.initialDelay.notBelowZero_toExtended.mul (h.pow _))

/-- Without jitter the draw does not matter. -/
theorem delay?_eq_baseDelay? (h : b.jitter = false) (attempt : Nat) (draw : Draw) :
    b.delay? attempt draw = b.baseDelay? attempt := by
  unfold delay?
  rw [h]
  exact Option.bind_fun_some (b.baseDelay? attempt)

end Backoff

end WarmPool
