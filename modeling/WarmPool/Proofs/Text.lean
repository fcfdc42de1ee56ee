import Mathlib.Data.List.TakeWhile
import Mathlib.Data.String.Basic
import WarmPool.Text.Blank

/-!
# Texts: the blanks around them and their bytes

A text without the blanks around it is the one part of the text that has only blanks on both sides
and none at its own ends (`Text.Trimmed`), and `Text.trimChars` finds it
(`Text.Trimmed.eq_trimChars`). Nothing is left of a text exactly if it has only blanks
(`Text.trimChars_eq_nil_iff`).

A text can be cut at a byte offset only where a character starts or the text ends
(`Text.cutAt?_eq_some_iff`). Characters of one byte each take as many bytes as they are, so in front
of a text their number is such an offset (`Text.cutAt?_takeWhile`). Digits and letters of ASCII are
such characters (`Text.utf8Size_of_isDigit`, `Text.utf8Size_of_isAlpha`).
-/

namespace WarmPool.Text

variable {cs t front rest : List Char}

/-- What is left of a text without the blanks around it. -/
structure Trimmed (cs t : List Char) : Prop where
  around : ∃ front back : List Char, cs = front ++ t ++ back ∧
    (∀ c ∈ front, isBlank c = true) ∧ ∀ c ∈ back, isBlank c = true
  head : ∀ c, t.head? = some c → isBlank c = false
  last : ∀ c, t.getLast? = some c → isBlank c = false

/-! ### The characters in front -/

/-- The characters of a kind in front of a text that goes on with something else. -/
theorem takeWhile_append_of_head {p : Char → Bool} (hfront : ∀ c ∈ front, p c = true)
    (hrest : ∀ c, rest.head? = some c → p c = false) : (front ++ rest).takeWhile p = front := by
  rw [List.takeWhile_append_of_pos hfront]
  cases rest with
  | nil => rw [List.takeWhile_nil, List.append_nil]
  | cons c rest => rw [List.takeWhile_cons_of_neg (by simp [hrest c rfl]), List.append_nil]

/-- What stands behind the characters of a kind. -/
theorem dropWhile_append_of_head {p : Char → Bool} (hfront : ∀ c ∈ front, p c = true)
    (hrest : ∀ c, rest.head? = some c → p c = false) : (front ++ rest).dropWhile p = rest := by
  rw [List.dropWhile_append_of_pos hfront]
  cases rest with
  | nil => rfl
  | cons c rest => exact List.dropWhile_cons_of_neg (by simp [hrest c rfl])

/-! ### Blanks in front -/

/-- What is left does not start with a blank. -/
theorem isBlank_head_trimFront {c : Char} (h : (trimFront cs).head? = some c) :
    isBlank c = false := by
  have hstop := List.head?_dropWhile_not isBlank cs
  unfold trimFront at h
  rw [h] at hstop
  exact hstop

theorem trimFront_append (hfront : ∀ c ∈ front, isBlank c = true)
    (hrest : ∀ c, rest.head? = some c → isBlank c = false) : trimFront (front ++ rest) = rest :=
  dropWhile_append_of_head hfront hrest

/-- Blanks are not dropped where a text starts with something else. -/
theorem trimFront_cons {c : Char} (cs : List Char) (h : isBlank c = false) :
    trimFront (c :: cs) = c :: cs := by
  unfold trimFront
  rw [List.dropWhile_cons, h]
  rfl

theorem trimFront_eq_nil_iff : trimFront cs = [] ↔ ∀ c ∈ cs, isBlank c = true :=
  List.dropWhile_eq_nil_iff

theorem exists_trimFront (cs : List Char) :
    ∃ front, cs = front ++ trimFront cs ∧ ∀ c ∈ front, isBlank c = true :=
  ⟨cs.takeWhile isBlank, List.takeWhile_append_dropWhile.symm, fun _ => List.mem_takeWhile_imp⟩

/-! ### Blanks on both sides -/

theorem trimmed_trimChars (cs : List Char) : Trimmed cs (trimChars cs) := by
  obtain ⟨front, hfront, hblank⟩ := exists_trimFront cs
  obtain ⟨back, hback, hblank'⟩ := exists_trimFront (trimFront cs).reverse
  have hrest : trimFront cs = trimChars cs ++ back.reverse := by
    rw [trimChars, ← List.reverse_append, ← hback, List.reverse_reverse]
  refine ⟨⟨front, back.reverse, ?_, hblank, fun c hc => hblank' c (List.mem_reverse.1 hc)⟩, ?_, ?_⟩
  · rw [List.append_assoc, ← hrest]
    exact hfront
  · intro c hc
    have hhead : (trimFront cs).head? = some c := by
      rw [hrest, List.head?_append, hc, Option.some_or]
    exact isBlank_head_trimFront hhead
  · intro c hc
    rw [trimChars, List.getLast?_reverse] at hc
    exact isBlank_head_trimFront hc

theorem Trimmed.eq_trimChars (h : Trimmed cs t) : t = trimChars cs := by
  obtain ⟨⟨front, back, rfl, hfront, hback⟩, hhead, hlast⟩ := h
  unfold trimChars
  cases t with
  | nil =>
    have hblank : ∀ c ∈ front ++ [] ++ back, isBlank c = true := by
      intro c hc
      rw [List.append_nil] at hc
      exact (List.mem_append.1 hc).elim (hfront c) (hback c)
    rw [trimFront_eq_nil_iff.2 hblank]
    rfl
  | cons c t =>
    have hback' : ∀ d ∈ back.reverse, isBlank d = true := fun d hd =>
      hback d (List.mem_reverse.1 hd)
    have hlast' : ∀ d, (c :: t).reverse.head? = some d → isBlank d = false := fun d hd =>
      hlast d (List.head?_reverse ▸ hd)
    rw [List.append_assoc, trimFront_append hfront (by simpa using hhead), List.reverse_append,
      trimFront_append hback' hlast', List.reverse_reverse]

/-- Nothing is left of blanks alone. -/
theorem trimChars_eq_nil_iff : trimChars cs = [] ↔ ∀ c ∈ cs, isBlank c = true := by
  constructor
  · intro h
    obtain ⟨⟨front, back, hcs, hfront, hback⟩, -, -⟩ := trimmed_trimChars cs
    rw [h, List.append_nil] at hcs
    intro c hc
    rw [hcs] at hc
    exact (List.mem_append.1 hc).elim (hfront c) (hback c)
  · intro h
    have hnil : Trimmed cs [] := ⟨⟨cs, [], by simp, h, by simp⟩, by simp, by simp⟩
    exact hnil.eq_trimChars.symm

/-! ### Bytes -/

/-- The texts before and after a byte offset, if a character starts or the text ends there. -/
def cutAt? : (offset : Nat) → List Char → Option (List Char × List Char)
  | 0, cs => some ([], cs)
  | _ + 1, [] => none
  | offset + 1, c :: cs =>
    if c.utf8Size ≤ offset + 1 then
      (cutAt? (offset + 1 - c.utf8Size) cs).map fun (before, after) => (c :: before, after)
    else none

variable {before after : List Char} {offset : Nat}

/-- A text is cut exactly where the bytes of a part in front of it end. -/
theorem cutAt?_eq_some_iff : cutAt? offset cs = some (before, after) ↔
    cs = before ++ after ∧ (String.ofList before).utf8ByteSize = offset := by
  rw [String.utf8ByteSize_ofList]
  induction cs generalizing offset before with
  | nil =>
    cases offset with
    | zero => cases before <;> simp [cutAt?, eq_comm]
    | succ offset => cases before <;> simp [cutAt?]
  | cons c cs ih =>
    cases offset with
    | zero =>
      cases before with
      | nil => simp [cutAt?, eq_comm]
      | cons d before => simp [cutAt?, d.utf8Size_pos.ne']
    | succ offset =>
      cases before with
      | nil => simp [cutAt?]
      | cons d before =>
        rw [cutAt?, List.cons_append, String.utf8Len_cons]
        by_cases h : c.utf8Size ≤ offset + 1
        · rw [if_pos h, Option.map_eq_some_iff]
          constructor
          · rintro ⟨⟨before', after'⟩, hcut, heq⟩
            cases heq
            obtain ⟨rfl, hsize⟩ := ih.1 hcut
            exact ⟨rfl, by omega⟩
          · rintro ⟨heq, hsize⟩
            obtain ⟨rfl, rfl⟩ := List.cons.inj heq
            exact ⟨(before, after), ih.2 ⟨rfl, by omega⟩, rfl⟩
        · -- The offset lies within the first character.
          rw [if_neg h]
          constructor
          · intro hcut
            cases hcut
          · rintro ⟨heq, hsize⟩
            obtain ⟨rfl, -⟩ := List.cons.inj heq
            omega

/-- Each of the characters takes one byte. -/
theorem utf8ByteSize_of_ascii (h : ∀ c ∈ cs, c.utf8Size = 1) :
    (String.ofList cs).utf8ByteSize = cs.length := by
  rw [String.utf8ByteSize_ofList]
  induction cs with
  | nil => rfl
  | cons c cs ih =>
    rw [String.utf8Len_cons, ih fun d hd => h d (List.mem_cons_of_mem c hd),
      h c List.mem_cons_self, List.length_cons]

/-- The characters of a one-byte kind in front of a text are cut off by their number. -/
theorem cutAt?_takeWhile {p : Char → Bool} (h : ∀ c, p c = true → c.utf8Size = 1)
    (cs : List Char) :
    cutAt? (cs.takeWhile p).length cs = some (cs.takeWhile p, cs.dropWhile p) := by
  refine cutAt?_eq_some_iff.2 ⟨List.takeWhile_append_dropWhile.symm, ?_⟩
  exact utf8ByteSize_of_ascii fun c hc => h c (List.mem_takeWhile_imp hc)

/-! ### Classes of ASCII characters -/

variable {c : Char}

theorem isDigit_iff : c.isDigit = true ↔ '0' ≤ c ∧ c ≤ '9' := by
  change (decide (c.val ≥ '0'.val) && decide (c.val ≤ '9'.val)) = true ↔ _
  rw [Bool.and_eq_true, decide_eq_true_iff, decide_eq_true_iff]
  rfl

theorem isLower_iff : c.isLower = true ↔ 'a' ≤ c ∧ c ≤ 'z' := by
  change (decide (c.val ≥ 'a'.val) && decide (c.val ≤ 'z'.val)) = true ↔ _
  rw [Bool.and_eq_true, decide_eq_true_iff, decide_eq_true_iff]
  rfl

theorem isAlpha_iff : c.isAlpha = true ↔ ('A' ≤ c ∧ c ≤ 'Z') ∨ ('a' ≤ c ∧ c ≤ 'z') := by
  rw [← isLower_iff]
  change (decide (c.val ≥ 'A'.val ∧ c.val ≤ 'Z'.val) || c.isLower) = true ↔ _
  rw [Bool.or_eq_true, decide_eq_true_iff]
  rfl

theorem utf8Size_eq_one_of_le {d : Char} (h : c ≤ d) (hd : d.val ≤ 127) : c.utf8Size = 1 :=
  Char.utf8Size_eq_one_iff.2 (UInt32.le_trans h hd)

theorem utf8Size_of_isDigit (h : c.isDigit = true) : c.utf8Size = 1 :=
  utf8Size_eq_one_of_le (isDigit_iff.1 h).2 (by decide)

theorem utf8Size_of_isLower (h : c.isLower = true) : c.utf8Size = 1 :=
  utf8Size_eq_one_of_le (isLower_iff.1 h).2 (by decide)

theorem utf8Size_of_isAlpha (h : c.isAlpha = true) : c.utf8Size = 1 := by
  rcases isAlpha_iff.1 h with h | h
  · exact utf8Size_eq_one_of_le h.2 (by decide)
  · exact utf8Size_eq_one_of_le h.2 (by decide)

theorem isBlank_of_isDigit (h : c.isDigit = true) : isBlank c = false := by
  have hlow : 48 ≤ c.toNat := (isDigit_iff.1 h).1
  have hhigh : c.toNat ≤ 57 := (isDigit_iff.1 h).2
  simp only [isBlank, Bool.or_eq_false_iff, Bool.and_eq_false_iff, decide_eq_false_iff_not]
  omega

theorem isAlpha_of_isDigit (h : c.isDigit = true) : c.isAlpha = false := by
  by_contra halpha
  have hhigh : c.val ≤ '9'.val := (isDigit_iff.1 h).2
  rcases isAlpha_iff.1 (Bool.of_not_eq_false halpha) with h | h
  · exact absurd (UInt32.le_trans h.1 hhigh) (by decide)
  · exact absurd (UInt32.le_trans h.1 hhigh) (by decide)

end WarmPool.Text
