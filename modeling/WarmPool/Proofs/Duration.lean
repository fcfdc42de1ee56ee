import WarmPool.Duration
import WarmPool.Proofs.Numeral
import WarmPool.Proofs.Text

/-!
# Which texts denote a duration, and which one

A text denotes a duration exactly if, without the blanks around it, it is a bare `0` or one or more
groups (`Duration.Group`): ASCII digits for a number below `2 ^ 64`, and the word of a unit. The
duration is the exact sum of the groups if there is one that long, and else has all the seconds that
a duration can have (`Duration.Measures`).

Reading takes one group after another (`Duration.pass`). How many characters a group has in front is
counted in characters and cut off in bytes; since digits and letters of units are ASCII, the cuts
never fall within a character, and every pass takes something away, so that reading comes to an end
without a bound set beforehand (`Duration.readFrom`).
-/

namespace WarmPool

namespace Duration

/-! ### Groups -/

/-- The word for a unit. -/
def TimeUnit.word : TimeUnit → List Char
  | hours => ['h']
  | minutes => ['m']
  | seconds => ['s']
  | millis => ['m', 's']

/-- The nanoseconds of a unit. -/
def TimeUnit.nanos : TimeUnit → Nat
  | hours => 3600 * nanosPerSecond
  | minutes => 60 * nanosPerSecond
  | seconds => nanosPerSecond
  | millis => 1000000

/-- A count of ASCII digits and a unit. -/
structure Group where
  digits : List Char
  unit : TimeUnit
  digits_ne_nil : digits ≠ []
  isDigit_of_mem : ∀ c ∈ digits, c.isDigit = true
  value_lt : Decimal.value digits < 2 ^ 64

/-- The text of a group. -/
def Group.chars (g : Group) : List Char := g.digits ++ g.unit.word

/-- How many nanoseconds a group stands for. -/
def Group.nanos (g : Group) : Nat := Decimal.value g.digits * g.unit.nanos

/-- The duration that is added for a group. -/
def Group.duration (g : Group) : Duration := g.unit.times (Decimal.value g.digits)

variable {cs rest : List Char} {total total' d : Duration} {unit : TimeUnit} {fuel : Nat}

theorem TimeUnit.ofWord?_eq_some_iff : ofWord? cs = some unit ↔ cs = unit.word := by
  constructor
  · intro h
    unfold ofWord? at h
    split at h
    · cases h
      rfl
    · cases h
      rfl
    · cases h
      rfl
    · cases h
      rfl
    · cases h
  · rintro rfl
    cases unit with
    | hours => rfl
    | minutes => rfl
    | seconds => rfl
    | millis => rfl

theorem TimeUnit.isAlpha_of_mem_word {c : Char} (h : c ∈ unit.word) : c.isAlpha = true := by
  have hall : unit.word.all Char.isAlpha = true := by
    cases unit with
    | hours => rfl
    | minutes => rfl
    | seconds => rfl
    | millis => rfl
  exact List.all_eq_true.1 hall c h

theorem TimeUnit.word_ne_nil (unit : TimeUnit) : unit.word ≠ [] := by
  cases unit with
  | hours => decide
  | minutes => decide
  | seconds => decide
  | millis => decide

theorem TimeUnit.isDigit_of_mem_word {c : Char} (h : c ∈ unit.word) : c.isDigit = false := by
  by_contra hdigit
  have halpha := Text.isAlpha_of_isDigit (Bool.of_not_eq_false hdigit)
  rw [isAlpha_of_mem_word h] at halpha
  cases halpha

theorem countOf?_eq_some_iff {count : Nat} :
    countOf? cs = some count ↔ Decimal.value cs = count ∧ count < 2 ^ 64 := by
  show (if Decimal.value cs < 2 ^ 64 then some (Decimal.value cs) else none) = some count ↔ _
  by_cases h : Decimal.value cs < 2 ^ 64
  · rw [if_pos h, Option.some.injEq]
    constructor
    · intro heq
      exact ⟨heq, heq ▸ h⟩
    · exact And.left
  · rw [if_neg h]
    constructor
    · intro hnone
      cases hnone
    · rintro ⟨rfl, hlt⟩
      exact absurd hlt h

/-! ### One group after another -/

/-- The sum after the group in front of a text, and the text behind it. -/
def group? (total : Duration) (cs : List Char) : Option (Duration × List Char) :=
  let digits := cs.takeWhile Char.isDigit
  let rest := cs.dropWhile Char.isDigit
  if digits.isEmpty then none
  else do
    let count ← countOf? digits
    let unit ← TimeUnit.ofWord? (rest.takeWhile Char.isAlpha)
    pure (total + unit.times count, rest.dropWhile Char.isAlpha)

/-- Every group is taken in a step of its own. -/
theorem sumGroups?_succ (hne : cs ≠ []) : sumGroups? (fuel + 1) total cs =
    (group? total cs).bind fun (total', rest) => sumGroups? fuel total' rest := by
  obtain ⟨c, cs, rfl⟩ := List.exists_cons_of_ne_nil hne
  rw [sumGroups?, group?]
  · split
    · rfl
    · simp only [Option.bind_eq_bind, Option.bind_assoc, Option.pure_def, Option.bind_some]
  · exact hne

/-- A group is taken off a text that does not go on with a letter behind it. -/
theorem group?_chars (g : Group) (total : Duration)
    (hrest : ∀ c, rest.head? = some c → c.isAlpha = false) :
    group? total (g.chars ++ rest) = some (total + g.duration, rest) := by
  have hword : ∀ c, (g.unit.word ++ rest).head? = some c → c.isDigit = false := by
    intro c hc
    rw [List.head?_append_of_ne_nil _ g.unit.word_ne_nil] at hc
    exact TimeUnit.isDigit_of_mem_word (List.mem_of_mem_head? hc)
  have hdigits : g.digits.isEmpty = false := List.isEmpty_eq_false_iff.2 g.digits_ne_nil
  unfold group? Group.chars
  simp only [List.append_assoc, Text.takeWhile_append_of_head g.isDigit_of_mem hword,
    Text.dropWhile_append_of_head g.isDigit_of_mem hword,
    Text.takeWhile_append_of_head (fun _ => TimeUnit.isAlpha_of_mem_word) hrest,
    Text.dropWhile_append_of_head (fun _ => TimeUnit.isAlpha_of_mem_word) hrest, hdigits,
    countOf?_eq_some_iff.2 ⟨rfl, g.value_lt⟩, TimeUnit.ofWord?_eq_some_iff.2 rfl]
  rfl

/-- What is taken off a text is a group. -/
theorem exists_group_of_group? (h : group? total cs = some (total', rest)) :
    ∃ g : Group, cs = g.chars ++ rest ∧ total' = total + g.duration := by
  unfold group? at h
  simp only at h
  split at h
  · cases h
  · rename_i hdigits
    obtain ⟨count, hcount, h⟩ := Option.bind_eq_some_iff.1 h
    obtain ⟨unit, hunit, h⟩ := Option.bind_eq_some_iff.1 h
    obtain ⟨rfl, hlt⟩ := countOf?_eq_some_iff.1 hcount
    cases h
    have hne : cs.takeWhile Char.isDigit ≠ [] := fun hnil => hdigits (List.isEmpty_iff.2 hnil)
    refine ⟨⟨cs.takeWhile Char.isDigit, unit, hne, fun _ => List.mem_takeWhile_imp, hlt⟩, ?_, rfl⟩
    rw [Group.chars, ← TimeUnit.ofWord?_eq_some_iff.1 hunit, List.append_assoc,
      List.takeWhile_append_dropWhile, List.takeWhile_append_dropWhile]

/-- Taking a group off leaves a shorter text. -/
theorem length_lt_of_group? (h : group? total cs = some (total', rest)) :
    rest.length < cs.length := by
  obtain ⟨g, rfl, -⟩ := exists_group_of_group? h
  have hpos := List.length_pos_iff.2 g.digits_ne_nil
  simp only [Group.chars, List.length_append]
  omega

/-- The sum of groups, added to `total`, one after another. -/
def addAll (total : Duration) (groups : List Group) : Duration :=
  groups.foldl (fun d g => d + g.duration) total

theorem sumGroups?_chars (groups : List Group) (total : Duration)
    (hfuel : (groups.flatMap Group.chars).length ≤ fuel) :
    sumGroups? fuel total (groups.flatMap Group.chars) = some (addAll total groups) := by
  induction groups generalizing fuel total with
  | nil => cases fuel <;> rfl
  | cons g groups ih =>
    have hhead : ∀ c, (groups.flatMap Group.chars).head? = some c → c.isAlpha = false := by
      intro c hc
      cases groups with
      | nil => cases hc
      | cons g' groups =>
        rw [List.flatMap_cons, Group.chars, List.append_assoc,
          List.head?_append_of_ne_nil _ g'.digits_ne_nil] at hc
        exact Text.isAlpha_of_isDigit (g'.isDigit_of_mem c (List.mem_of_mem_head? hc))
    have hgroup := group?_chars g total hhead
    have hshort := length_lt_of_group? hgroup
    rw [List.flatMap_cons] at hfuel ⊢
    obtain ⟨fuel, rfl⟩ : ∃ n, fuel = n + 1 := ⟨fuel - 1, by omega⟩
    have hne : g.chars ++ groups.flatMap Group.chars ≠ [] := by
      intro hnil
      rw [hnil] at hshort
      exact absurd hshort (Nat.not_lt_zero _)
    rw [sumGroups?_succ hne, hgroup, Option.bind_some]
    exact ih _ (by omega)

theorem exists_groups_of_sumGroups? (h : sumGroups? fuel total cs = some d) :
    ∃ groups : List Group, cs = groups.flatMap Group.chars := by
  induction fuel generalizing total cs with
  | zero =>
    cases cs with
    | nil => exact ⟨[], rfl⟩
    | cons c cs => cases h
  | succ fuel ih =>
    by_cases hne : cs = []
    · exact ⟨[], hne⟩
    · rw [sumGroups?_succ hne] at h
      obtain ⟨⟨total', rest⟩, hgroup, hrest⟩ := Option.bind_eq_some_iff.1 h
      obtain ⟨g, hcs, -⟩ := exists_group_of_group? hgroup
      obtain ⟨groups, hgroups⟩ := ih hrest
      exact ⟨g :: groups, by rw [hcs, hgroups, List.flatMap_cons]⟩

/-! ### Cuts at byte offsets -/

/-- What comes of a text that is cut at byte offsets. -/
inductive Reading (α : Type) where
  | done (a : α)
  | invalid
  /-- A cut fell within a character. -/
  | torn
deriving DecidableEq

namespace Reading

/-- A reading in which all cuts fell between characters. -/
def ofOption {α : Type} : Option α → Reading α
  | some a => done a
  | none => invalid

variable {α : Type} {o : Option α}

theorem ofOption_eq_done_iff {a : α} : ofOption o = done a ↔ o = some a := by
  cases o with
  | none => simp [ofOption]
  | some b => simp [ofOption]

theorem ofOption_eq_invalid_iff : ofOption o = invalid ↔ o = none := by
  cases o with
  | none => simp [ofOption]
  | some b => simp [ofOption]

theorem ofOption_ne_torn : ofOption o ≠ torn := by
  cases o with
  | none => simp [ofOption]
  | some b => simp [ofOption]

end Reading

/-- The sum after the group in front of a text: characters are counted, and cut off in bytes. -/
def pass (total : Duration) (cs : List Char) : Reading (Duration × List Char) :=
  let digits := (cs.takeWhile Char.isDigit).length
  if digits = 0 then .invalid
  else
    match Text.cutAt? digits cs with
    | none => .torn
    | some (number, cs) =>
      match countOf? number with
      | none => .invalid
      | some count =>
        let letters := (cs.takeWhile Char.isAlpha).length
        match Text.cutAt? letters cs with
        | none => .torn
        | some (word, cs) =>
          match TimeUnit.ofWord? word with
          | none => .invalid
          | some unit => .done (total + unit.times count, cs)

/-- No cut falls within a character. -/
theorem pass_eq (total : Duration) (cs : List Char) :
    pass total cs = .ofOption (group? total cs) := by
  unfold pass group?
  simp only [Text.cutAt?_takeWhile fun c => Text.utf8Size_of_isDigit,
    Text.cutAt?_takeWhile fun c => Text.utf8Size_of_isAlpha, List.length_eq_zero_iff,
    List.isEmpty_iff]
  split
  · rfl
  · cases countOf? (cs.takeWhile Char.isDigit) with
    | none => rfl
    | some count =>
      cases TimeUnit.ofWord? ((cs.dropWhile Char.isDigit).takeWhile Char.isAlpha) with
      | none => rfl
      | some unit => rfl

/-- Every pass takes something away. -/
theorem length_lt_of_pass (h : pass total cs = .done (total', rest)) : rest.length < cs.length :=
  length_lt_of_group? (Reading.ofOption_eq_done_iff.1 (pass_eq total cs ▸ h))

/-- The sum of the groups of a text, added to `total`, pass after pass until nothing is left. -/
def readFrom (total : Duration) (cs : List Char) : Reading Duration :=
  if cs = [] then .done total
  else
    match _ : pass total cs with
    | .done (total', rest) => readFrom total' rest
    | .invalid => .invalid
    | .torn => .torn
termination_by cs.length
decreasing_by exact length_lt_of_pass ‹_›

/-- The duration that a text denotes, read by cuts at byte offsets. -/
def read (text : String) : Reading Duration :=
  let cs := Text.trimChars text.toList
  if cs = ['0'] then .done zero else if cs = [] then .invalid else readFrom zero cs

/-- As many passes as characters are enough. -/
theorem readFrom_eq (total : Duration) (hfuel : cs.length ≤ fuel) :
    readFrom total cs = .ofOption (sumGroups? fuel total cs) := by
  induction fuel generalizing total cs with
  | zero =>
    obtain rfl := List.length_eq_zero_iff.1 (Nat.le_zero.1 hfuel)
    rw [readFrom, if_pos rfl]
    rfl
  | succ fuel ih =>
    rw [readFrom]
    by_cases hne : cs = []
    · rw [if_pos hne, hne]
      rfl
    · rw [if_neg hne, sumGroups?_succ hne]
      split
      · rename_i total' rest hpass
        have hshort := length_lt_of_pass hpass
        rw [pass_eq, Reading.ofOption_eq_done_iff] at hpass
        rw [hpass, Option.bind_some]
        exact ih total' (by omega)
      · rename_i hpass
        rw [pass_eq, Reading.ofOption_eq_invalid_iff] at hpass
        rw [hpass]
        rfl
      · rename_i hpass
        exact absurd (pass_eq total cs ▸ hpass) Reading.ofOption_ne_torn

/-! ### Sums that stop at the greatest duration -/

/-- The duration of so many nanoseconds, or one of all the seconds if none is that long. -/
structure Measures (d : Duration) (n : Nat) : Prop where
  exact : n ≤ max.nanos → d.nanos = n
  full : max.nanos < n → d.seconds = 2 ^ 64 - 1

theorem seconds_eq_iff : d.seconds = 2 ^ 64 - 1 ↔ (2 ^ 64 - 1) * nanosPerSecond ≤ d.nanos := by
  have hlt := d.nanos_lt
  unfold seconds
  simp only [nanosPerSecond] at hlt ⊢
  omega

theorem nanos_ofNanos (n : Nat) : (ofNanos n).nanos = min n max.nanos := by
  unfold ofNanos
  split
  · rename_i h
    exact (Nat.min_eq_left (Nat.le_sub_one_of_lt h)).symm
  · rename_i h
    exact (Nat.min_eq_right ((Nat.sub_le _ 1).trans (Nat.le_of_not_lt h))).symm

theorem measures_ofNanos (n : Nat) : Measures (ofNanos n) n := by
  constructor
  · intro h
    rw [nanos_ofNanos, Nat.min_eq_left h]
  · intro h
    rw [seconds_eq_iff, nanos_ofNanos, Nat.min_eq_right h.le]
    decide

theorem measures_ofSeconds (n : Nat) : Measures (ofSeconds n) (n * nanosPerSecond) := by
  have hnanos : (ofSeconds n).nanos = min n (2 ^ 64 - 1) * nanosPerSecond := rfl
  have hmax : max.nanos = 2 ^ 64 * nanosPerSecond - 1 := rfl
  constructor
  · intro h
    rw [hmax] at h
    rw [hnanos]
    simp only [nanosPerSecond] at *
    omega
  · intro h
    rw [hmax] at h
    rw [seconds_eq_iff, hnanos]
    simp only [nanosPerSecond] at *
    omega

theorem measures_zero : Measures zero 0 := measures_ofNanos 0

/-- What has all seconds keeps them when something is added. -/
theorem Measures.add {a b : Duration} {m n : Nat} (ha : Measures a m) (hb : Measures b n) :
    Measures (a + b) (m + n) := by
  have hnanos : (a + b).nanos = min (a.nanos + b.nanos) max.nanos := nanos_ofNanos _
  have hfull : (2 ^ 64 - 1) * nanosPerSecond ≤ max.nanos := by decide
  constructor
  · intro h
    have hm := ha.exact (by omega)
    have hn := hb.exact (by omega)
    rw [hnanos, hm, hn, Nat.min_eq_left h]
  · intro h
    rw [seconds_eq_iff, hnanos]
    refine Nat.le_min.2 ⟨?_, hfull⟩
    by_cases hm : max.nanos < m
    · exact (seconds_eq_iff.1 (ha.full hm)).trans (Nat.le_add_right _ _)
    · by_cases hn : max.nanos < n
      · exact (seconds_eq_iff.1 (hb.full hn)).trans (Nat.le_add_left _ _)
      · rw [ha.exact (by omega), hb.exact (by omega)]
        omega

theorem Group.measures_duration (g : Group) : Measures g.duration g.nanos := by
  unfold Group.duration Group.nanos
  cases g.unit with
  | hours =>
    have h := measures_ofSeconds (Decimal.value g.digits * 3600)
    rwa [Nat.mul_assoc] at h
  | minutes =>
    have h := measures_ofSeconds (Decimal.value g.digits * 60)
    rwa [Nat.mul_assoc] at h
  | seconds => exact measures_ofSeconds (Decimal.value g.digits)
  | millis => exact measures_ofNanos (Decimal.value g.digits * 1000000)

/-- How many nanoseconds groups stand for together. -/
def sum (groups : List Group) : Nat := (groups.map Group.nanos).sum

theorem measures_addAll {n : Nat} (h : Measures total n) (groups : List Group) :
    Measures (addAll total groups) (n + sum groups) := by
  induction groups generalizing total n with
  | nil => exact h
  | cons g groups ih =>
    have hsum : n + sum (g :: groups) = n + g.nanos + sum groups := by
      unfold sum
      rw [List.map_cons, List.sum_cons, Nat.add_assoc]
    rw [hsum]
    exact ih (h.add g.measures_duration)

/-! ### Texts -/

theorem parse?_eq (text : String) : parse? text =
    let cs := Text.trimChars text.toList
    if cs = ['0'] then some zero else if cs = [] then none else sumGroups? cs.length zero cs := by
  unfold parse? parseChars?
  split
  · rename_i h
    simp [h]
  · rename_i h
    simp [h]
  · rename_i hnil hzero
    exact ((if_neg hzero).trans (if_neg hnil)).symm

/-- Cutting at byte offsets finds what `parse?` finds. -/
theorem read_eq (text : String) : read text = .ofOption (parse? text) := by
  rw [parse?_eq]
  unfold read
  simp only [readFrom_eq zero le_rfl]
  split
  · rfl
  · split
    · rfl
    · rfl

/-- Groups are never as short as a bare `0`. -/
theorem two_le_length_chars {groups : List Group} (h : groups ≠ []) :
    2 ≤ (groups.flatMap Group.chars).length := by
  obtain ⟨g, groups, rfl⟩ := List.exists_cons_of_ne_nil h
  have hdigits := List.length_pos_iff.2 g.digits_ne_nil
  have hword := List.length_pos_iff.2 g.unit.word_ne_nil
  simp only [List.flatMap_cons, Group.chars, List.length_append]
  omega

theorem parse?_chars {text : String} {groups : List Group} (hne : groups ≠ [])
    (h : Text.Trimmed text.toList (groups.flatMap Group.chars)) :
    parse? text = some (addAll zero groups) := by
  have hlength := two_le_length_chars hne
  have hnil : groups.flatMap Group.chars ≠ [] := fun heq => by simp [heq] at hlength
  have hzero : groups.flatMap Group.chars ≠ ['0'] := fun heq => by simp [heq] at hlength
  rw [parse?_eq, ← h.eq_trimChars]
  simp only [hzero, hnil, if_false]
  exact sumGroups?_chars groups zero le_rfl

/--
A text denotes a duration exactly if, without the blanks around it, it is a bare `0` or made of
groups. The duration is then none at all, or the sum of the groups as far as durations go. Reading
by cuts at byte offsets comes to the same and no cut falls within a character, whatever the text;
and every pass, wherever it starts, takes something away.
-/
theorem parse?_reads (text : String) :
    ((parse? text).isSome ↔ ∃ t, Text.Trimmed text.toList t ∧
      (t = ['0'] ∨ ∃ groups : List Group, groups ≠ [] ∧ t = groups.flatMap Group.chars)) ∧
    (Text.Trimmed text.toList ['0'] → parse? text = some zero) ∧
    (∀ groups : List Group, groups ≠ [] →
      Text.Trimmed text.toList (groups.flatMap Group.chars) →
      ∃ d, parse? text = some d ∧ (sum groups ≤ max.nanos → d.nanos = sum groups) ∧
        (max.nanos < sum groups → d.seconds = 2 ^ 64 - 1)) ∧
    read text = .ofOption (parse? text) ∧
    ∀ total cs, pass total cs ≠ .torn ∧
      ∀ total' rest, pass total cs = .done (total', rest) → rest.length < cs.length := by
  have hzero (h : Text.Trimmed text.toList ['0']) : parse? text = some zero := by
    rw [parse?_eq, ← h.eq_trimChars]
    rfl
  refine ⟨⟨fun h => ?_, ?_⟩, hzero, fun groups hne h => ?_, read_eq text, fun total cs => ?_⟩
  · refine ⟨_, Text.trimmed_trimChars text.toList, ?_⟩
    obtain ⟨d, hd⟩ := Option.isSome_iff_exists.1 h
    rw [parse?_eq] at hd
    by_cases hbare : Text.trimChars text.toList = ['0']
    · exact .inl hbare
    · by_cases hnil : Text.trimChars text.toList = []
      · simp [hnil] at hd
      · simp only [hbare, hnil, if_false] at hd
        obtain ⟨groups, hgroups⟩ := exists_groups_of_sumGroups? hd
        refine .inr ⟨groups, fun heq => hnil ?_, hgroups⟩
        rw [hgroups, heq, List.flatMap_nil]
  · rintro ⟨t, ht, rfl | ⟨groups, hne, rfl⟩⟩
    · rw [hzero ht]
      rfl
    · rw [parse?_chars hne ht]
      rfl
  · have hmeasures := measures_addAll measures_zero groups
    rw [Nat.zero_add] at hmeasures
    exact ⟨_, parse?_chars hne h, hmeasures.exact, hmeasures.full⟩
  · rw [pass_eq]
    exact ⟨Reading.ofOption_ne_torn, fun total' rest h => length_lt_of_pass (pass_eq total cs ▸ h)⟩

/-- All the letters behind a number have to be the word for one unit. -/
example : parse? "1hm" = none := by decide

end Duration

end WarmPool
