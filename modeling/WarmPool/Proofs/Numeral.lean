import Mathlib.Tactic.IntervalCases
import WarmPool.Timestamp

/-!
# Decimal numerals

`Decimal.value` reads a list of digits. A numeral reads back as its number (`value_numeral`), so
distinct numbers have distinct texts (`natText_injective`), and it has no more digits than the
number needs (`length_numeral_le`). Zeros in front change nothing (`value_padded`).
-/

namespace WarmPool

namespace Decimal

/-- The number that a list of decimal digits denotes. -/
def value (digits : List Char) : Nat := digits.foldl (fun n c => 10 * n + (c.toNat - '0'.toNat)) 0

/-- The digit of a number below ten. -/
theorem toNat_digit {d : Nat} (hd : d < 10) :
    (Char.ofNat ('0'.toNat + d)).toNat - '0'.toNat = d := by
  interval_cases d <;> rfl

theorem isDigit_digit {d : Nat} (hd : d < 10) : (Char.ofNat ('0'.toNat + d)).isDigit = true := by
  interval_cases d <;> rfl

/-! ### The digits of a numeral -/

/-- Digits in front of a list of digits count as if the number stood there. -/
theorem foldl_digitChars (fuel n : Nat) (rest : List Char) (h : n < fuel) :
    (digitChars fuel n rest).foldl (fun n c => 10 * n + (c.toNat - '0'.toNat)) 0 =
      rest.foldl (fun n c => 10 * n + (c.toNat - '0'.toNat)) n := by
  induction fuel generalizing n rest with
  | zero => omega
  | succ fuel ih =>
    have hdigit := toNat_digit (show n % 10 < 10 by omega)
    rw [digitChars]
    by_cases hn : n < 10
    · simp only [hn, ↓reduceIte, List.foldl_cons, hdigit]
      congr 1
      omega
    · simp only [hn, ↓reduceIte]
      rw [ih (n / 10) _ (by omega)]
      simp only [List.foldl_cons, hdigit]
      congr 1
      omega

/-- A numeral reads back as its number. -/
@[simp] theorem value_numeral (n : Nat) : value (numeral n) = n := by
  unfold value numeral
  rw [foldl_digitChars _ _ _ (Nat.lt_succ_self n)]
  rfl

theorem digitChars_isDigit (fuel n : Nat) (rest : List Char)
    (h : ∀ c ∈ rest, c.isDigit = true) : ∀ c ∈ digitChars fuel n rest, c.isDigit = true := by
  induction fuel generalizing n rest with
  | zero => exact h
  | succ fuel ih =>
    have hrest : ∀ c ∈ Char.ofNat ('0'.toNat + n % 10) :: rest, c.isDigit = true := by
      intro c hc
      rcases List.mem_cons.1 hc with rfl | hc
      · exact isDigit_digit (by omega)
      · exact h c hc
    rw [digitChars]
    by_cases hn : n < 10
    · simp only [hn, ↓reduceIte]
      exact hrest
    · simp only [hn, ↓reduceIte]
      exact ih _ _ hrest

/-- A numeral holds digits only. -/
theorem isDigit_of_mem_numeral {n : Nat} {c : Char} (h : c ∈ numeral n) : c.isDigit = true :=
  digitChars_isDigit _ _ [] (by simp) c h

theorem length_digitChars_le (fuel n w : Nat) (rest : List Char) (hw : 0 < w) (h : n < 10 ^ w) :
    (digitChars fuel n rest).length ≤ w + rest.length := by
  induction fuel generalizing n w rest with
  | zero => rw [digitChars]; omega
  | succ fuel ih =>
    rw [digitChars]
    by_cases hn : n < 10
    · simp only [hn, ↓reduceIte, List.length_cons]
      omega
    · simp only [hn, ↓reduceIte]
      obtain ⟨v, rfl⟩ : ∃ v, w = v + 1 := ⟨w - 1, by omega⟩
      have hv : 0 < v := by
        rcases Nat.eq_zero_or_pos v with rfl | hv
        · simp only [Nat.zero_add, Nat.pow_one] at h; omega
        · exact hv
      have hlt : n / 10 < 10 ^ v := by rw [Nat.pow_succ] at h; omega
      have := ih (n / 10) v (Char.ofNat ('0'.toNat + n % 10) :: rest) hv hlt
      simp only [List.length_cons] at this
      omega

/-- A number below `10 ^ w` has at most `w` digits. -/
theorem length_numeral_le {n w : Nat} (hw : 0 < w) (h : n < 10 ^ w) : (numeral n).length ≤ w :=
  length_digitChars_le _ _ _ [] hw h

/-- A numeral has at least one digit. -/
theorem numeral_ne_nil (n : Nat) : numeral n ≠ [] := by
  have hgrow (fuel m : Nat) (rest : List Char) :
      rest.length ≤ (digitChars fuel m rest).length := by
    induction fuel generalizing m rest with
    | zero => exact Nat.le_refl _
    | succ fuel ih =>
      rw [digitChars]
      by_cases hm : m < 10
      · simp only [hm, ↓reduceIte, List.length_cons]
        omega
      · simp only [hm, ↓reduceIte]
        exact Nat.le_trans (Nat.le_succ _) (ih _ (_ :: rest))
  intro hnil
  unfold numeral at hnil
  rw [digitChars] at hnil
  by_cases hn : n < 10
  · simp [hn] at hnil
  · simp only [hn, ↓reduceIte] at hnil
    have := hgrow n (n / 10) [Char.ofNat ('0'.toNat + n % 10)]
    rw [hnil] at this
    simp at this

end Decimal

/-- Distinct numbers have distinct texts. -/
theorem natText_injective : Function.Injective natText := by
  intro m n h
  have hlist : Decimal.numeral m = Decimal.numeral n := by
    simpa [natText] using congrArg String.toList h
  rw [← Decimal.value_numeral m, hlist, Decimal.value_numeral]

/-! ### Numerals of a fixed width -/

namespace Timestamp

open Decimal

/-- Zeros in front change nothing. -/
@[simp] theorem value_padded (w n : Nat) : value (padded w n) = n := by
  have hzeros (k : Nat) (l : List Char) : value (List.replicate k '0' ++ l) = value l := by
    induction k with
    | zero => rfl
    | succ k ih => rw [← ih]; rfl
  unfold padded
  rw [hzeros, value_numeral]

theorem isDigit_of_mem_padded {w n : Nat} {c : Char} (h : c ∈ padded w n) : c.isDigit = true := by
  rcases List.mem_append.1 h with h | h
  · rw [List.eq_of_mem_replicate h]; rfl
  · exact isDigit_of_mem_numeral h

/-- A number below `10 ^ w` fills its width exactly. -/
theorem length_padded {w n : Nat} (hw : 0 < w) (h : n < 10 ^ w) : (padded w n).length = w := by
  have := length_numeral_le hw h
  simp only [padded, List.length_append, List.length_replicate]
  omega

theorem padded_ne_nil (w n : Nat) : padded w n ≠ [] := by
  intro h
  exact numeral_ne_nil n (List.append_eq_nil_iff.1 h).2

end Timestamp

end WarmPool
