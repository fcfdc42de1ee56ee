import Mathlib.Tactic.IntervalCases
import WarmPool.Proofs.Numeral
import WarmPool.Proofs.Text

/-!
# Texts of instants

The instants that exist are those of the calendar, with a leap second at the end of a minute only
(`Timestamp.Valid`). Counting days and naming dates are inverse to each other
(`daysOfDate_dateOfDays`), so the text of such an instant reads back as that instant
(`parse?_text`), and its text in whole seconds as the instant without its fraction
(`parse?_wholeText`).
-/

namespace WarmPool.Timestamp

open Decimal

/-- Whether an instant is one that the calendar and the clock have. -/
def Valid (t : Timestamp) : Prop :=
  inCalendar (dateOfDays (t.seconds / 86400)).1 = true ∧
    (t.nanos < 1000000000 ∨ (t.nanos < 2000000000 ∧ t.seconds % 60 = 59))

instance (t : Timestamp) : Decidable t.Valid := inferInstanceAs (Decidable (_ ∧ _))

/-- The instant without its fraction of a second. -/
def whole (t : Timestamp) : Timestamp :=
  ⟨t.seconds, if 1000000000 ≤ t.nanos then 1000000000 else 0⟩

/-! ### The years of a cycle -/

/-- The day of a cycle of 400 years on which a year of it starts. -/
def yearStart (y : Int) : Int := 365 * y + y / 4 - y / 100

/-- The days of a cycle before a day of it, leap days not counted. -/
def commonDays (n : Int) : Int := n - n / 1460 + n / 36524 - n / 146096

theorem commonDays_mono {m n : Int} (h : m ≤ n) : commonDays m ≤ commonDays n := by
  unfold commonDays
  omega

/-- The common days of the first and of the last day of a year. -/
theorem commonDays_yearStart {y : Nat} (hy : y < 400) :
    365 * (y : Int) ≤ commonDays (yearStart y) ∧
      commonDays (yearStart (y + 1) - 1) < 365 * (y + 1) := by
  have h : ∀ z : Fin 400, 365 * ((z : Nat) : Int) ≤ commonDays (yearStart (z : Nat)) ∧
      commonDays (yearStart ((z : Nat) + 1) - 1) < 365 * ((z : Nat) + 1) := by decide +kernel
  exact h ⟨y, hy⟩

/-- The year of a day of the cycle: it has started, and the next one, if there is one, has not. -/
theorem yearStart_le_day {n : Int} (h0 : 0 ≤ n) (h1 : n < 146097) :
    0 ≤ commonDays n / 365 ∧ commonDays n / 365 < 400 ∧ yearStart (commonDays n / 365) ≤ n ∧
      (commonDays n / 365 < 399 → n < yearStart (commonDays n / 365 + 1)) := by
  have hlow : 0 ≤ commonDays n / 365 := by unfold commonDays; omega
  have hhigh : commonDays n / 365 < 400 := by unfold commonDays; omega
  obtain ⟨y, hy⟩ := Int.eq_ofNat_of_zero_le hlow
  refine ⟨hlow, hhigh, ?_, ?_⟩
  · by_contra hlt
    rw [hy] at hlt
    -- Otherwise the day lies in an earlier year, whose days are all too few.
    obtain ⟨z, rfl⟩ : ∃ z, y = z + 1 := ⟨y - 1, by unfold yearStart at hlt; omega⟩
    have hend := (commonDays_yearStart (y := z) (by omega)).2
    have hmono := commonDays_mono (show n ≤ yearStart (z + 1) - 1 by push_cast at hlt; omega)
    push_cast at hy
    omega
  · intro hlast
    by_contra hge
    have hstart := (commonDays_yearStart (y := y + 1) (by omega)).1
    have hmono := commonDays_mono (show yearStart ((y + 1 : Nat) : Int) ≤ n by
      rw [hy] at hge; push_cast; omega)
    push_cast at hstart hmono
    omega

/-! ### Days and dates -/

/-- A date of the calendar: a month of twelve and a day that the month has. -/
structure IsDate (year : Int) (month day : Nat) : Prop where
  month_pos : 1 ≤ month
  month_le : month ≤ 12
  day_pos : 1 ≤ day
  day_le : day ≤ daysInMonth year month

/-- A month counted from March, as a month of the calendar. -/
def monthFrom (m : Int) : Int := if m < 10 then m + 3 else m - 9

/-- The day of the year counted from March, as a date of the year `y` that starts in March. -/
theorem isDate_of_dayOfYear {y d m : Int} (h0 : 0 ≤ d) (h1 : d ≤ 365)
    (hleap : d = 365 → isLeapYear (y + 1) = true) (hm : (5 * d + 2) / 153 = m) :
    IsDate (y + if monthFrom m ≤ 2 then 1 else 0) (monthFrom m).toNat
      (d - (153 * m + 2) / 5 + 1).toNat := by
  have hm0 : 0 ≤ m := by omega
  have hm1 : m ≤ 11 := by omega
  -- Each month has its own length; only that of the last, February, depends on the year.
  interval_cases m <;>
    refine ⟨by decide, by decide, by omega, ?_⟩ <;>
    simp only [monthFrom, Int.reduceLT, ↓reduceIte, Int.reduceAdd, Int.reduceSub, Int.reduceToNat,
      Int.reduceLE, daysInMonth] <;>
    try omega
  by_cases hd : d = 365
  · simp only [hleap hd, ↓reduceIte]
    omega
  · split <;> omega

/-- A day, as the cycle of 400 years, the year of it and the day of that year that it lies in. -/
theorem exists_yearStart (days : Int) :
    ∃ c y d m : Int, 0 ≤ y ∧ y < 400 ∧ 0 ≤ d ∧ d ≤ 365 ∧
      (d = 365 → isLeapYear (y + c * 400 + 1) = true) ∧ (5 * d + 2) / 153 = m ∧
      days + 719468 = c * 146097 + yearStart y + d ∧
      dateOfDays days = (y + c * 400 + (if monthFrom m ≤ 2 then 1 else 0), (monthFrom m).toNat,
        (d - (153 * m + 2) / 5 + 1).toNat) := by
  have hn0 : 0 ≤ days + 719468 - (days + 719468) / 146097 * 146097 := by omega
  have hn1 : days + 719468 - (days + 719468) / 146097 * 146097 < 146097 := by omega
  obtain ⟨hy0, hy1, hstart, hend⟩ := yearStart_le_day hn0 hn1
  -- Days are counted from the first of March of the year 0, which starts a cycle.
  set c := (days + 719468) / 146097 with hc
  set n := days + 719468 - c * 146097 with hn
  set y := commonDays n / 365 with hy
  have hlength : n - yearStart y ≤ 365 := by
    rcases Int.lt_or_le y 399 with hlt | hge
    · have := hend hlt
      unfold yearStart at this ⊢
      omega
    · have : y = 399 := by omega
      rw [this]
      unfold yearStart
      omega
  refine ⟨c, y, n - yearStart y, (5 * (n - yearStart y) + 2) / 153, hy0, hy1, by omega, hlength, ?_,
    rfl, by omega, ?_⟩
  · -- A year of 366 days is followed by the start of a leap year.
    intro hd
    have h4 : (y + 1) % 4 = 0 ∧ ((y + 1) % 100 = 0 → (y + 1) % 400 = 0) := by
      rcases Int.lt_or_le y 399 with hlt | hge
      · have hnext := hend hlt
        unfold yearStart at hnext hd
        have h100 : (y + 1) / 100 = y / 100 := by omega
        have h4 : (y + 1) / 4 = y / 4 + 1 := by omega
        omega
      · omega
    unfold isLeapYear
    simp only [Bool.and_eq_true, Bool.or_eq_true, decide_eq_true_eq]
    omega
  · unfold dateOfDays
    simp only [← hc, ← hn]
    rfl

/-- Naming the date of a day gives a date of the calendar. -/
theorem isDate_dateOfDays (days : Int) :
    IsDate (dateOfDays days).1 (dateOfDays days).2.1 (dateOfDays days).2.2 := by
  obtain ⟨c, y, d, m, -, -, hd0, hd1, hleap, hm, -, hdate⟩ := exists_yearStart days
  rw [hdate]
  exact isDate_of_dayOfYear hd0 hd1 hleap hm

/-- Counting the days up to the date of a day gives the day. -/
theorem daysOfDate_dateOfDays (days : Int) :
    daysOfDate (dateOfDays days).1 (dateOfDays days).2.1 (dateOfDays days).2.2 = days := by
  obtain ⟨c, y, d, m, hy0, hy1, hd0, hd1, -, hm, hdays, hdate⟩ := exists_yearStart days
  rw [hdate]
  unfold yearStart at hdays
  simp only [daysOfDate, monthFrom]
  have hm0 : 0 ≤ m := by omega
  have hm1 : m ≤ 11 := by omega
  -- January and February belong to the next year of the calendar.
  by_cases hm10 : m < 10
  · have h2 : ¬ (m + 3 ≤ 2) := by omega
    have h2' : ¬ ((m + 3).toNat ≤ 2) := by omega
    simp only [hm10, ↓reduceIte, h2, h2']
    omega
  · have h2 : m - 9 ≤ 2 := by omega
    have h2' : (m - 9).toNat ≤ 2 := by omega
    simp only [hm10, ↓reduceIte, h2, h2']
    omega

/-! ### Reading what is written -/

/-- Digits in front of something else are read as their number. -/
theorem parseNumber?_append {most : Nat} {digits rest : List Char}
    (hdigit : ∀ c ∈ digits, c.isDigit = true) (hne : digits ≠ []) (hlen : digits.length ≤ most)
    (hrest : digits.length = most ∨ ∀ c ∈ rest.head?, c.isDigit = false) :
    parseNumber? most (digits ++ rest) = some (value digits, rest) := by
  have htrim : Text.trimFront (digits ++ rest) = digits ++ rest := by
    obtain ⟨c, cs, rfl⟩ := List.exists_cons_of_ne_nil hne
    exact Text.trimFront_cons _ (Text.isBlank_of_isDigit (hdigit c (by simp)))
  have htake : ((digits ++ rest).take most).takeWhile Char.isDigit = digits := by
    rw [List.take_append, List.take_of_length_le hlen, List.takeWhile_append_of_pos hdigit]
    have hnil : (rest.take (most - digits.length)).takeWhile Char.isDigit = [] := by
      rcases hrest with hlen | hhead
      · rw [hlen, Nat.sub_self]
        rfl
      · cases rest with
        | nil => simp
        | cons c cs =>
          have hc : c.isDigit = false := hhead c rfl
          cases most - digits.length <;> simp [hc]
    rw [hnil, List.append_nil]
  unfold parseNumber?
  simp only [htrim, htake, List.isEmpty_iff, hne, ↓reduceIte, List.drop_left]
  rfl

/-- A number of a fixed width is read back. -/
theorem parseNumber?_padded {w n : Nat} (rest : List Char) (hw : 0 < w) (h : n < 10 ^ w) :
    parseNumber? w (padded w n ++ rest) = some (n, rest) := by
  rw [parseNumber?_append (fun _ => isDigit_of_mem_padded) (padded_ne_nil w n)
    (le_of_eq (length_padded hw h)) (.inl (length_padded hw h)), value_padded]

theorem parseSeparator?_cons {c : Char} (rest : List Char) (h : Text.isBlank c = false) :
    parseSeparator? c (c :: rest) = some rest := by
  unfold parseSeparator?
  rw [Text.trimFront_cons _ h]
  simp

/-- A year is read back in front of the hyphen that follows it. -/
theorem parseYear?_yearChars (year : Int) (rest : List Char) :
    parseYear? (yearChars year ++ '-' :: rest) = some (year, '-' :: rest) := by
  have hsigned (n : Nat) :
      ((padded 4 n ++ '-' :: rest).head?.map Char.isDigit).getD false = true ∧
      parseNumber? (padded 4 n ++ '-' :: rest).length (padded 4 n ++ '-' :: rest) =
        some (n, '-' :: rest) := by
    obtain ⟨c, cs, hc⟩ := List.exists_cons_of_ne_nil (padded_ne_nil 4 n)
    have hdigit : c.isDigit = true := isDigit_of_mem_padded (w := 4) (n := n) (by rw [hc]; simp)
    refine ⟨by rw [hc]; simp [hdigit], ?_⟩
    rw [parseNumber?_append (fun _ => isDigit_of_mem_padded) (padded_ne_nil 4 n) (by simp)
      (.inr (by simp)), value_padded]
  unfold yearChars
  split
  · -- Four digits without a sign.
    rename_i hyear
    obtain ⟨c, cs, hc⟩ := List.exists_cons_of_ne_nil (padded_ne_nil 4 year.toNat)
    have hdigit : c.isDigit = true :=
      isDigit_of_mem_padded (w := 4) (n := year.toNat) (by rw [hc]; simp)
    have hnumber := parseNumber?_padded (w := 4) (n := year.toNat) ('-' :: rest) (by omega)
      (by omega)
    rw [hc] at hnumber ⊢
    unfold parseYear?
    rw [List.cons_append, Text.trimFront_cons _ (Text.isBlank_of_isDigit hdigit)]
    rw [List.cons_append] at hnumber
    split
    · rename_i heq
      rw [(List.cons.inj heq).1] at hdigit
      exact absurd hdigit (by decide)
    · rename_i heq
      rw [(List.cons.inj heq).1] at hdigit
      exact absurd hdigit (by decide)
    · rw [hnumber]
      simp only [Option.map_some, Option.some.injEq, Prod.mk.injEq, and_true]
      omega
  · -- A sign, and at least four digits up to the hyphen.
    rename_i hyear
    unfold parseYear?
    obtain ⟨hhead, hnumber⟩ := hsigned year.natAbs
    by_cases hneg : year < 0
    · simp only [hneg, ↓reduceIte, List.cons_append]
      rw [Text.trimFront_cons _ (by decide)]
      simp only [hhead, ↓reduceIte, hnumber, Option.map_some, Option.some.injEq, Prod.mk.injEq,
        and_true]
      omega
    · simp only [hneg, ↓reduceIte, List.cons_append]
      rw [Text.trimFront_cons _ (by decide)]
      simp only [hhead, ↓reduceIte, hnumber, Option.map_some, Option.some.injEq, Prod.mk.injEq,
        and_true]
      omega

/-- The fraction of a second is read back. -/
theorem parseFraction?_fractionChars {nanos : Nat} (h : nanos < 1000000000) :
    parseFraction? (fractionChars nanos ++ ['Z']) = some (nanos, ['Z']) := by
  have hdigits (w n : Nat) (hw : 0 < w) (hw9 : w ≤ 9) (hn : n < 10 ^ w) :
      parseFraction? ('.' :: padded w n ++ ['Z']) = some (n * 10 ^ (9 - w), ['Z']) := by
    have hlen := length_padded hw hn
    have htake : (padded w n ++ ['Z']).takeWhile Char.isDigit = padded w n :=
      Text.takeWhile_append_of_head (fun _ => isDigit_of_mem_padded) (by simp)
    have hdrop : (padded w n ++ ['Z']).dropWhile Char.isDigit = ['Z'] :=
      Text.dropWhile_append_of_head (fun _ => isDigit_of_mem_padded) (by simp)
    have hvalue := value_padded w n
    unfold value at hvalue
    simp only [parseFraction?, List.cons_append, htake, hdrop, List.isEmpty_iff,
      padded_ne_nil, ↓reduceIte, List.take_of_length_le (hlen.trans_le hw9), hlen, hvalue]
  -- No digits at all, or as many as milliseconds, microseconds or nanoseconds take.
  unfold fractionChars
  split
  · rename_i h0
    rw [h0]
    rfl
  split
  · rw [hdigits 3 _ (by omega) (by omega) (by omega)]
    congr 2
    omega
  split
  · rw [hdigits 6 _ (by omega) (by omega) (by omega)]
    congr 2
    omega
  · rw [hdigits 9 _ (by omega) (by omega) (by omega)]
    simp

/-- The second of the day that an instant lies in. -/
def secondOfDay (t : Timestamp) : Nat := (t.seconds - t.seconds / 86400 * 86400).toNat

/-- The parts of a valid instant, its fraction given apart, denote it. -/
theorem ofParts?_dateOfDays {t : Timestamp} (ht : t.Valid) (nanos : Nat) :
    ofParts? (dateOfDays (t.seconds / 86400)).1 (dateOfDays (t.seconds / 86400)).2.1
        (dateOfDays (t.seconds / 86400)).2.2 (t.secondOfDay / 3600) (t.secondOfDay / 60 % 60)
        (t.secondOfDay % 60 + if 1000000000 ≤ t.nanos then 1 else 0) nanos 0 =
      some ⟨t.seconds, if 1000000000 ≤ t.nanos then nanos + 1000000000 else nanos⟩ := by
  obtain ⟨hcalendar, hnanos⟩ := ht
  obtain ⟨hmonth1, hmonth12, hday1, hday⟩ := isDate_dateOfDays (t.seconds / 86400)
  have hdays := daysOfDate_dateOfDays (t.seconds / 86400)
  have hsecond : t.secondOfDay < 86400 := by unfold secondOfDay; omega
  have hcast : (t.secondOfDay : Int) = t.seconds - t.seconds / 86400 * 86400 := by
    unfold secondOfDay; omega
  -- The second is written as the sixtieth exactly within a leap second.
  have hleap : t.secondOfDay % 60 + (if 1000000000 ≤ t.nanos then 1 else 0) = 60 ↔
      1000000000 ≤ t.nanos := by
    split <;> omega
  have hclock : t.seconds / 86400 * 86400 + ((t.secondOfDay / 3600 : Nat) * 3600 +
      (t.secondOfDay / 60 % 60 : Nat) * 60 + ((if 1000000000 ≤ t.nanos then 59
        else t.secondOfDay % 60 + if 1000000000 ≤ t.nanos then 1 else 0 : Nat) : Int)) - 0 =
      t.seconds := by
    split <;> omega
  unfold ofParts?
  have hok : (inCalendar (dateOfDays (t.seconds / 86400)).1 &&
      1 ≤ (dateOfDays (t.seconds / 86400)).2.1 && (dateOfDays (t.seconds / 86400)).2.1 ≤ 12 &&
      1 ≤ (dateOfDays (t.seconds / 86400)).2.2 &&
      (dateOfDays (t.seconds / 86400)).2.2 ≤ daysInMonth (dateOfDays (t.seconds / 86400)).1
        (dateOfDays (t.seconds / 86400)).2.1 &&
      t.secondOfDay / 3600 < 24 && t.secondOfDay / 60 % 60 < 60 &&
      (t.secondOfDay % 60 + if 1000000000 ≤ t.nanos then 1 else 0) ≤ 60) = true := by
    simp only [Bool.and_eq_true, decide_eq_true_eq]
    refine ⟨⟨⟨⟨⟨⟨⟨hcalendar, hmonth1⟩, hmonth12⟩, hday1⟩, hday⟩, ?_⟩, ?_⟩, ?_⟩
    · omega
    · omega
    · split <;> omega
  rw [hok]
  simp only [↓reduceIte, hdays, hleap, hclock, hcalendar]

/-- Date and time of a valid instant are read back, whatever its fraction is written as. -/
theorem parseChars?_chars {t : Timestamp} (ht : t.Valid) {fraction : List Char} {nanos : Nat}
    (hfraction : parseFraction? (fraction ++ ['Z']) = some (nanos, ['Z'])) :
    parseChars? (t.chars fraction) =
      some ⟨t.seconds, if 1000000000 ≤ t.nanos then nanos + 1000000000 else nanos⟩ := by
  obtain ⟨-, hmonth12, -, hday⟩ := isDate_dateOfDays (t.seconds / 86400)
  have hmonth : (dateOfDays (t.seconds / 86400)).2.1 < 10 ^ 2 := by omega
  have hday : (dateOfDays (t.seconds / 86400)).2.2 < 10 ^ 2 := by
    refine Nat.lt_of_le_of_lt hday ?_
    unfold daysInMonth
    split <;> (try split) <;> omega
  have hsecond : t.secondOfDay < 86400 := by unfold secondOfDay; omega
  have hhour : t.secondOfDay / 3600 < 10 ^ 2 := by omega
  have hminute : t.secondOfDay / 60 % 60 < 10 ^ 2 := by omega
  have hclock : t.secondOfDay % 60 + (if 1000000000 ≤ t.nanos then 1 else 0) < 10 ^ 2 := by
    split <;> omega
  have hparts := ofParts?_dateOfDays ht nanos
  unfold secondOfDay at hhour hminute hclock hparts
  unfold chars
  simp only [List.append_assoc, List.cons_append, List.nil_append]
  refine Option.bind_eq_some_iff.2 ⟨_, parseYear?_yearChars _ _, ?_⟩
  refine Option.bind_eq_some_iff.2 ⟨_, parseSeparator?_cons _ rfl, ?_⟩
  refine Option.bind_eq_some_iff.2 ⟨_, parseNumber?_padded _ Nat.two_pos hmonth, ?_⟩
  refine Option.bind_eq_some_iff.2 ⟨_, parseSeparator?_cons _ rfl, ?_⟩
  refine Option.bind_eq_some_iff.2 ⟨_, parseNumber?_padded _ Nat.two_pos hday, ?_⟩
  refine Option.bind_eq_some_iff.2 ⟨_, rfl, ?_⟩
  refine Option.bind_eq_some_iff.2 ⟨_, parseNumber?_padded _ Nat.two_pos hhour, ?_⟩
  refine Option.bind_eq_some_iff.2 ⟨_, parseSeparator?_cons _ rfl, ?_⟩
  refine Option.bind_eq_some_iff.2 ⟨_, parseNumber?_padded _ Nat.two_pos hminute, ?_⟩
  refine Option.bind_eq_some_iff.2 ⟨_, parseSeparator?_cons _ rfl, ?_⟩
  refine Option.bind_eq_some_iff.2 ⟨_, parseNumber?_padded _ Nat.two_pos hclock, ?_⟩
  refine Option.bind_eq_some_iff.2 ⟨_, hfraction, ?_⟩
  exact hparts

/-- The text of a valid instant reads back as that instant. -/
theorem parse?_text {t : Timestamp} (ht : t.Valid) : parse? t.text = some t := by
  unfold parse? text
  rw [String.toList_ofList, parseChars?_chars ht (parseFraction?_fractionChars (by omega))]
  have hnanos := ht.2
  have hback : (if 1000000000 ≤ t.nanos then t.nanos % 1000000000 + 1000000000
      else t.nanos % 1000000000) = t.nanos := by
    split <;> omega
  rw [hback]

/-- The text of a valid instant in whole seconds reads back as the instant without its fraction. -/
theorem parse?_wholeText {t : Timestamp} (ht : t.Valid) : parse? t.wholeText = some t.whole := by
  have hfraction : parseFraction? ([] ++ ['Z']) = some (0, ['Z']) := by decide
  unfold parse? wholeText whole
  rw [String.toList_ofList, parseChars?_chars ht hfraction, Nat.zero_add]

end WarmPool.Timestamp
