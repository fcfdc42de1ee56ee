import WarmPool.Json.Printer
import WarmPool.Json.Numeral
import WarmPool.Proofs.Number.Shortest
import WarmPool.Proofs.Numeral
import WarmPool.Proofs.Text

/-!
# Numbers as text

Every number is written as a numeral of the grammar (`Numeral.chars_ofNumber`), and the grammar
reads back exactly its parts, whatever follows (`Numeral.parse?_chars`). The parts of an integer
denote that integer (`Numeral.number?_ofInteger`), those of a binary64 number its shortest decimal
(`Numeral.amount_ofFloat`). So distinct numbers have distinct texts (`numberChars_injective`).
-/

namespace WarmPool

namespace Decimal

/-! ### The first digit -/

@[simp] theorem numeral_zero : numeral 0 = ['0'] := rfl

/-- The numeral of a number other than zero does not start with a zero. -/
theorem numeral_eq_cons {n : Nat} (h : n ≠ 0) : ∃ c rest, numeral n = c :: rest ∧ c ≠ '0' := by
  have hgrow (fuel m : Nat) (rest : List Char) (hm : m ≠ 0) (hfuel : m < fuel) :
      ∃ c rest', digitChars fuel m rest = c :: rest' ∧ c ≠ '0' := by
    induction fuel generalizing m rest with
    | zero => omega
    | succ fuel ih =>
      rw [digitChars]
      by_cases hten : m < 10
      · simp only [hten, ↓reduceIte]
        refine ⟨_, _, rfl, fun heq => ?_⟩
        have hdigit := toNat_digit (show m % 10 < 10 by omega)
        rw [heq] at hdigit
        have hzero : '0'.toNat - '0'.toNat = 0 := rfl
        omega
      · simp only [hten, ↓reduceIte]
        exact ih _ _ (by omega) (by omega)
  exact hgrow (n + 1) n [] h (Nat.lt_succ_self n)

end Decimal

namespace Json

/-! ### The digits of a text -/

theorem digitsValue_numeral (n : Nat) : digitsValue (Decimal.numeral n) = n :=
  Decimal.value_numeral n

theorem digitsValue_append_zeros (digits : List Char) (count : Nat) :
    digitsValue (digits ++ List.replicate count '0') = digitsValue digits * 10 ^ count := by
  induction count with
  | zero => simp
  | succ count ih =>
    rw [List.replicate_succ', ← List.append_assoc]
    unfold digitsValue at ih ⊢
    rw [List.foldl_append, ih, List.foldl_cons, List.foldl_nil, pow_succ]
    show 10 * _ + 0 = _
    ring

theorem digitsValue_zeros_append (digits : List Char) (count : Nat) :
    digitsValue (List.replicate count '0' ++ digits) = digitsValue digits := by
  induction count with
  | zero => rfl
  | succ count ih =>
    rw [← ih]
    rfl

/-- The text does not start with a digit. -/
def NoDigit (cs : List Char) : Prop := ∀ c ∈ cs.head?, c.isDigit = false

/-- The digits in front of a text that goes on with something else. -/
theorem spanDigits_append {digits cs : List Char} (h : ∀ c ∈ digits, c.isDigit = true)
    (hcs : NoDigit cs) : spanDigits (digits ++ cs) = (digits, cs) := by
  unfold spanDigits
  rw [Text.takeWhile_append_of_head h hcs, Text.dropWhile_append_of_head h hcs]

namespace Numeral

/-! ### Numerals as text -/

/-- The parts are those of a numeral: digits with no zero too many in front, and more digits. -/
structure WellFormed (n : Numeral) : Prop where
  integral : ∀ c ∈ n.integral, c.isDigit = true
  leading : n.integral = ['0'] ∨ ∃ c rest, n.integral = c :: rest ∧ c ≠ '0'
  fraction : ∀ c ∈ n.fraction, c.isDigit = true

/-- The point and the digits after it, nothing if there are none. -/
def fractionChars (fraction : List Char) : List Char :=
  if fraction.isEmpty then [] else '.' :: fraction

/-- The exponent and its mark, nothing if there is none. -/
def exponentChars : Option Int → List Char
  | none => []
  | some e => 'e' :: numberLayout.exponentText e

/-- The text of a numeral. -/
def chars (n : Numeral) : List Char :=
  (if n.negative then ['-'] else []) ++
    (n.integral ++ (fractionChars n.fraction ++ exponentChars n.exponent))

/-- The text does not go on with a numeral. -/
def Stops (cs : List Char) : Prop :=
  ∀ c ∈ cs.head?, c.isDigit = false ∧ c ≠ '.' ∧ c ≠ 'e' ∧ c ≠ 'E'

variable {n : Numeral} {cs : List Char}

theorem WellFormed.integral_eq_cons (h : n.WellFormed) :
    ∃ digit digits, n.integral = digit :: digits ∧ digit.isDigit = true := by
  obtain ⟨digit, digits, hdigits⟩ : ∃ digit digits, n.integral = digit :: digits := by
    rcases h.leading with heq | ⟨digit, digits, heq, -⟩
    · exact ⟨_, _, heq⟩
    · exact ⟨_, _, heq⟩
  exact ⟨digit, digits, hdigits, h.integral digit (hdigits ▸ List.mem_cons_self)⟩

/-! ### Reading the text back -/

theorem parseIntegral?_append {integral : List Char} (hdigits : ∀ c ∈ integral, c.isDigit = true)
    (hleading : integral = ['0'] ∨ ∃ c rest, integral = c :: rest ∧ c ≠ '0') (hcs : NoDigit cs) :
    parseIntegral? (integral ++ cs) = some (integral, cs) := by
  rcases hleading with rfl | ⟨c, rest, rfl, hc⟩
  · cases cs with
    | nil => rfl
    | cons c cs =>
      have hstop : c.isDigit = false := hcs c rfl
      simp [parseIntegral?, hstop]
  · have hspan := spanDigits_append hdigits hcs
    rw [List.cons_append] at hspan ⊢
    unfold parseIntegral?
    split
    · rename_i heq
      exact absurd (List.cons.inj heq).1 hc
    · rw [hspan]

theorem parseFraction?_append {fraction : List Char} (hdigits : ∀ c ∈ fraction, c.isDigit = true)
    (hcs : NoDigit cs) (hpoint : ∀ c ∈ cs.head?, c ≠ '.') :
    parseFraction? (fractionChars fraction ++ cs) = some (fraction, cs) := by
  unfold fractionChars
  cases fraction with
  | nil =>
    cases cs with
    | nil => rfl
    | cons c cs =>
      have hc : c ≠ '.' := hpoint c rfl
      simp only [List.isEmpty_nil, ↓reduceIte, List.nil_append]
      unfold parseFraction?
      split
      · rename_i heq
        exact absurd (List.cons.inj heq).1 hc
      · rfl
  | cons digit digits =>
    have hspan := spanDigits_append hdigits hcs
    simp only [List.isEmpty_cons, Bool.false_eq_true, ↓reduceIte, List.cons_append]
    rw [List.cons_append] at hspan
    simp only [parseFraction?, hspan]

theorem parseExponent?_append (exponent : Option Int) (hcs : Stops cs) :
    parseExponent? (exponentChars exponent ++ cs) = some (exponent, cs) := by
  cases exponent with
  | none =>
    cases cs with
    | nil => rfl
    | cons c cs =>
      obtain ⟨-, -, he, hE⟩ := hcs c rfl
      simp [exponentChars, parseExponent?, he, hE]
  | some e =>
    have hspan := @spanDigits_append (Decimal.numeral e.natAbs) cs
      (fun c => Decimal.isDigit_of_mem_numeral) (fun c hc => (hcs c hc).1)
    obtain ⟨digit, digits, hdigits⟩ :=
      List.exists_cons_of_ne_nil (Decimal.numeral_ne_nil e.natAbs)
    have hvalue := digitsValue_numeral e.natAbs
    rw [hdigits] at hspan hvalue
    show parseExponent? ('e' :: (numberLayout.exponentText e ++ cs)) = _
    unfold DecimalLayout.exponentText
    rw [hdigits]
    by_cases hsign : e < 0
    · have hneg : -(e.natAbs : Int) = e := by omega
      simp only [hsign, ↓reduceIte, List.cons_append] at hspan ⊢
      rw [parseExponent?]
      simp only [decide_true, Bool.true_or, ↓reduceIte, hspan, hvalue, hneg]
    · have hpos : (e.natAbs : Int) = e := by omega
      simp only [hsign, numberLayout, ↓reduceIte, List.cons_append, List.nil_append] at hspan ⊢
      rw [parseExponent?]
      simp only [decide_true, Bool.true_or, Bool.false_eq_true, ↓reduceIte, hspan, hvalue, hpos]

/-- What follows the digits before the point is no digit. -/
theorem noDigit_fractionChars (hcs : Stops cs) :
    NoDigit (fractionChars n.fraction ++ (exponentChars n.exponent ++ cs)) ∧
      NoDigit (exponentChars n.exponent ++ cs) ∧
      ∀ c ∈ (exponentChars n.exponent ++ cs).head?, c ≠ '.' := by
  have hexponent : NoDigit (exponentChars n.exponent ++ cs) ∧
      ∀ c ∈ (exponentChars n.exponent ++ cs).head?, c ≠ '.' := by
    cases n.exponent with
    | none => exact ⟨fun c hc => (hcs c hc).1, fun c hc => (hcs c hc).2.1⟩
    | some e =>
      constructor
      · rintro c ⟨⟩
        rfl
      · rintro c ⟨⟩
        decide
  refine ⟨?_, hexponent⟩
  unfold fractionChars
  cases n.fraction with
  | nil => exact hexponent.1
  | cons digit digits =>
    rintro c ⟨⟩
    rfl

/-- The grammar reads back the parts of a numeral. -/
theorem parse?_chars (h : n.WellFormed) (hcs : Stops cs) :
    parse? (n.chars ++ cs) = some (n, cs) := by
  obtain ⟨hfraction, hexponent, hpoint⟩ := @noDigit_fractionChars n cs hcs
  have hintegral := parseIntegral?_append h.integral h.leading hfraction
  have hfractional := parseFraction?_append h.fraction hexponent hpoint
  have hexponential := parseExponent?_append n.exponent hcs
  unfold chars parse?
  simp only [List.append_assoc]
  cases hsign : n.negative with
  | true =>
    simp only [↓reduceIte, List.cons_append, List.nil_append, hintegral, hfractional,
      hexponential, Option.bind_eq_bind, Option.bind_some, Option.pure_def]
    rw [← hsign]
  | false =>
    -- A digit is no sign.
    obtain ⟨digit, digits, hdigits, hdigit⟩ := h.integral_eq_cons
    have hminus : digit ≠ '-' := by
      rintro rfl
      cases hdigit
    simp only [Bool.false_eq_true, ↓reduceIte, List.nil_append]
    split
    · rename_i hcons
      rw [hdigits] at hcons
      exact absurd (List.cons.inj hcons).1 hminus
    · simp only [hintegral, hfractional, hexponential, Option.bind_eq_bind, Option.bind_some,
        Option.pure_def]
      rw [← hsign]

/-! ### The numeral of a number -/

/-- The parts of an integer. -/
def ofInteger (i : Int) : Numeral := ⟨decide (i < 0), Decimal.numeral i.natAbs, [], none⟩

/-- The parts of a binary64 number as it is laid out. -/
def ofFloat (x : Binary64) : Numeral :=
  let digits := Decimal.numeral x.shortest.digits
  let point : Int := digits.length + x.shortest.scale
  if numberLayout.positionalFrom ≤ point - 1 ∧ point - 1 ≤ numberLayout.positionalTo then
    if point ≤ 0 then ⟨x.negative, ['0'], List.replicate (-point).toNat '0' ++ digits, none⟩
    else if digits.length ≤ point then
      ⟨x.negative, digits ++ List.replicate (point - digits.length).toNat '0', ['0'], none⟩
    else ⟨x.negative, digits.take point.toNat, digits.drop point.toNat, none⟩
  else ⟨x.negative, digits.take 1, digits.drop 1, some (point - 1)⟩

/-- The parts of a number. -/
def ofNumber : Number → Numeral
  | .integer i _ _ => ofInteger i
  | .float x => ofFloat x

/--
What holds of each of the four layouts of a binary64 number holds of its parts: zeros in front of
its digits, zeros behind them, the point among them, or the point after the first of them.
-/
theorem ofFloat_cases {P : Numeral → Prop} (x : Binary64)
    (hsmall : ∀ zeros : Nat,
      (Decimal.numeral x.shortest.digits).length + x.shortest.scale = -zeros →
      P ⟨x.negative, ['0'], List.replicate zeros '0' ++ Decimal.numeral x.shortest.digits, none⟩)
    (hwhole : ∀ zeros : Nat, x.shortest.scale = zeros →
      P ⟨x.negative, Decimal.numeral x.shortest.digits ++ List.replicate zeros '0', ['0'], none⟩)
    (hmiddle : ∀ place : Nat,
      (Decimal.numeral x.shortest.digits).length + x.shortest.scale = place →
      0 < place → place < (Decimal.numeral x.shortest.digits).length →
      P ⟨x.negative, (Decimal.numeral x.shortest.digits).take place,
        (Decimal.numeral x.shortest.digits).drop place, none⟩)
    (hscientific : P ⟨x.negative, (Decimal.numeral x.shortest.digits).take 1,
      (Decimal.numeral x.shortest.digits).drop 1,
      some ((Decimal.numeral x.shortest.digits).length + x.shortest.scale - 1)⟩) :
    P (ofFloat x) := by
  unfold ofFloat
  simp only
  split
  · split
    · exact hsmall _ (by omega)
    · split
      · exact hwhole _ (by omega)
      · exact hmiddle _ (by omega) (by omega) (by omega)
  · exact hscientific

theorem chars_ofInteger (i : Int) : (ofInteger i).chars =
    if i < 0 then '-' :: Decimal.numeral i.natAbs else Decimal.numeral i.natAbs := by
  unfold chars ofInteger fractionChars exponentChars
  by_cases hi : i < 0
  · simp [hi]
  · simp [hi]

theorem chars_ofFloat (x : Binary64) : (ofFloat x).chars = numberLayout.render x := by
  obtain ⟨digit, digits, hdigits⟩ :=
    List.exists_cons_of_ne_nil (Decimal.numeral_ne_nil x.shortest.digits)
  unfold ofFloat DecimalLayout.render
  simp only
  split
  · split
    · simp [chars, fractionChars, exponentChars, hdigits]
    · split
      · simp [chars, fractionChars, exponentChars, numberLayout]
      · rename_i hpositive hmiddle
        have hleft : (Decimal.numeral x.shortest.digits).drop
            ((Decimal.numeral x.shortest.digits).length + x.shortest.scale).toNat ≠ [] := by
          rw [Ne, List.drop_eq_nil_iff]
          omega
        simp [chars, fractionChars, exponentChars, hleft]
  · rw [hdigits]
    cases digits with
    | nil => simp [chars, fractionChars, exponentChars, numberLayout]
    | cons second more => simp [chars, fractionChars, exponentChars, numberLayout]

/-- Every number is written as its numeral. -/
theorem chars_ofNumber (n : Number) : (ofNumber n).chars = numberChars n := by
  cases n with
  | integer i _ _ => exact chars_ofInteger i
  | float x => exact chars_ofFloat x

/-- Digits in front stay digits, and a first digit stays the first. -/
theorem wellFormed_ofFloat (x : Binary64) : (ofFloat x).WellFormed := by
  have hdigits {c : Char} (h : c ∈ Decimal.numeral x.shortest.digits) : c.isDigit = true :=
    Decimal.isDigit_of_mem_numeral h
  have hzeros {k : Nat} {c : Char} (h : c ∈ List.replicate k '0') : c.isDigit = true := by
    rw [List.eq_of_mem_replicate h]
    rfl
  by_cases hzero : x.significand = 0
  · -- Zero is written as the digit and its mark.
    have hparts : ofFloat x = ⟨x.negative, ['0'], ['0'], none⟩ := by
      unfold ofFloat
      rw [Binary64.shortest_of_zero hzero]
      rfl
    rw [hparts]
    refine ⟨?_, .inl rfl, ?_⟩
    · simp
    · simp
  · obtain ⟨first, rest, hfirst, hne⟩ :=
      Decimal.numeral_eq_cons (Binary64.shortest_digits_ne_zero hzero)
    refine ofFloat_cases x (fun zeros _ => ?_) (fun zeros _ => ?_) (fun place _ hpos _ => ?_) ?_
    · refine ⟨by simp, .inl rfl, fun c hc => ?_⟩
      rcases List.mem_append.1 hc with hc | hc
      · exact hzeros hc
      · exact hdigits hc
    · refine ⟨fun c hc => ?_, .inr ⟨first, _, by rw [hfirst, List.cons_append], hne⟩, by simp⟩
      rcases List.mem_append.1 hc with hc | hc
      · exact hdigits hc
      · exact hzeros hc
    · refine ⟨fun c hc => hdigits (List.mem_of_mem_take hc), .inr ?_,
        fun c hc => hdigits (List.mem_of_mem_drop hc)⟩
      obtain ⟨place, rfl⟩ : ∃ k, place = k + 1 := ⟨place - 1, by omega⟩
      exact ⟨first, rest.take place, by rw [hfirst, List.take_succ_cons], hne⟩
    · refine ⟨fun c hc => hdigits (List.mem_of_mem_take hc), .inr ?_,
        fun c hc => hdigits (List.mem_of_mem_drop hc)⟩
      exact ⟨first, [], by rw [hfirst, List.take_succ_cons, List.take_zero], hne⟩

theorem wellFormed_ofInteger (i : Int) : (ofInteger i).WellFormed := by
  refine ⟨fun c hc => Decimal.isDigit_of_mem_numeral hc, ?_, fun c hc => nomatch hc⟩
  by_cases hzero : i.natAbs = 0
  · left
    show Decimal.numeral i.natAbs = ['0']
    rw [hzero, Decimal.numeral_zero]
  · exact .inr (Decimal.numeral_eq_cons hzero)

theorem wellFormed_ofNumber (n : Number) : (ofNumber n).WellFormed := by
  cases n with
  | integer i _ _ => exact wellFormed_ofInteger i
  | float x => exact wellFormed_ofFloat x

/-- The grammar reads back the parts of a number. -/
theorem parse?_numberChars (n : Number) (hcs : Stops cs) :
    parse? (numberChars n ++ cs) = some (ofNumber n, cs) := by
  rw [← chars_ofNumber]
  exact parse?_chars (wellFormed_ofNumber n) hcs

/-! ### What the parts denote -/

/-- The parts of an integer denote it. -/
theorem number?_ofInteger {i : Int} (ge : -2 ^ 63 ≤ i) (lt : i < 2 ^ 64) :
    (ofInteger i).number? = some (.integer i ge lt) := by
  have hinteger : (ofInteger i).integer? = some (.integer i ge lt) := by
    have hvalue : (if decide (i < 0) = true then -(i.natAbs : Int) else i.natAbs) = i := by
      by_cases hi : i < 0
      · rw [if_pos (decide_eq_true hi)]
        omega
      · rw [if_neg (by simpa using hi)]
        omega
    have hzero : (decide (i < 0) && decide (i.natAbs = 0)) = false := by
      rw [Bool.and_eq_false_iff, decide_eq_false_iff_not, decide_eq_false_iff_not]
      omega
    unfold integer? ofInteger
    simp only [List.isEmpty_nil, Bool.not_true, Option.isSome_none, Bool.or_false,
      Bool.false_eq_true, ↓reduceIte, digitsValue_numeral, hzero, hvalue]
    exact dif_pos ⟨ge, lt⟩
  unfold number?
  rw [hinteger]
  rfl

/-- The value of a numeral, its sign apart. -/
def amount (n : Numeral) : ℚ :=
  digitsValue (n.integral ++ n.fraction) * 10 ^ (n.exponent.getD 0 - n.fraction.length)

/-- The parts of a binary64 number denote its shortest decimal. -/
theorem amount_ofFloat (x : Binary64) : (ofFloat x).amount = x.shortest.amount := by
  have hvalue := digitsValue_numeral x.shortest.digits
  have hlength : 1 ≤ (Decimal.numeral x.shortest.digits).length :=
    List.length_pos_of_ne_nil (Decimal.numeral_ne_nil _)
  refine ofFloat_cases (P := fun n => n.amount = x.shortest.digits * 10 ^ x.shortest.scale) x
    (fun zeros hzeros => ?_) (fun zeros hzeros => ?_) (fun place hplace _ hlt => ?_) ?_
  · have hdigits := digitsValue_zeros_append (Decimal.numeral x.shortest.digits) (zeros + 1)
    rw [List.replicate_succ, List.cons_append, hvalue] at hdigits
    unfold amount
    simp only [Option.getD_none, List.cons_append, List.nil_append, List.length_append,
      List.length_replicate]
    rw [hdigits]
    congr 2
    push_cast
    omega
  · have hdigits := digitsValue_append_zeros (Decimal.numeral x.shortest.digits) (zeros + 1)
    rw [List.replicate_succ', ← List.append_assoc, hvalue] at hdigits
    unfold amount
    simp only [Option.getD_none, List.length_cons, List.length_nil]
    rw [hdigits, hzeros]
    push_cast
    rw [mul_assoc, ← zpow_natCast, ← zpow_add₀ (by norm_num)]
    congr 2
    push_cast
    ring
  · unfold amount
    simp only [Option.getD_none, List.take_append_drop, List.length_drop]
    rw [hvalue]
    congr 2
    omega
  · unfold amount
    simp only [Option.getD_some, List.take_append_drop, List.length_drop]
    rw [hvalue]
    congr 2
    omega

/-- A binary64 number is marked by a point or an exponent. -/
theorem marked_ofFloat (x : Binary64) :
    (ofFloat x).fraction ≠ [] ∨ (ofFloat x).exponent ≠ none := by
  refine ofFloat_cases (P := fun n => n.fraction ≠ [] ∨ n.exponent ≠ none) x (fun _ _ => .inl ?_)
    (fun _ _ => .inl ?_) (fun place _ _ hlt => .inl ?_) (.inr ?_)
  · simp [Decimal.numeral_ne_nil]
  · simp
  · rw [Ne, List.drop_eq_nil_iff]
    omega
  · simp

/-- The sign of the parts is that of the number. -/
theorem negative_ofFloat (x : Binary64) : (ofFloat x).negative = x.negative :=
  ofFloat_cases (P := fun n => n.negative = x.negative) x (fun _ _ => rfl) (fun _ _ => rfl)
    (fun _ _ _ _ => rfl) rfl

/-- Distinct numbers have distinct parts. -/
theorem ofNumber_injective : Function.Injective ofNumber := by
  intro m n h
  cases m with
  | integer i _ _ =>
    cases n with
    | integer j _ _ =>
      unfold ofNumber ofInteger at h
      simp only [Numeral.mk.injEq, and_true] at h
      have habs : i.natAbs = j.natAbs := by
        rw [← digitsValue_numeral i.natAbs, h.2, digitsValue_numeral]
      have hsign : (i < 0 ↔ j < 0) := by simpa using h.1
      have heq : i = j := by omega
      subst heq
      rfl
    | float y =>
      have hmarked := marked_ofFloat y
      rw [show ofFloat y = ofInteger i from h.symm] at hmarked
      exact absurd hmarked (by simp [ofInteger])
  | float x =>
    cases n with
    | integer j _ _ =>
      have hmarked := marked_ofFloat x
      rw [show ofFloat x = ofInteger j from h] at hmarked
      exact absurd hmarked (by simp [ofInteger])
    | float y =>
      have hparts : ofFloat x = ofFloat y := h
      have hsign : x.negative = y.negative := by
        rw [← negative_ofFloat, hparts, negative_ofFloat]
      have hamount : x.shortest.amount = y.shortest.amount := by
        rw [← amount_ofFloat, hparts, amount_ofFloat]
      rw [Binary64.eq_of_shortest hsign hamount]

end Numeral

/-- Distinct numbers have distinct texts. -/
theorem numberChars_injective : Function.Injective numberChars := by
  intro m n h
  have hstops : Numeral.Stops [] := fun c hc => nomatch hc
  have hm := Numeral.parse?_numberChars m hstops
  have hn := Numeral.parse?_numberChars n hstops
  rw [h, hn] at hm
  exact Numeral.ofNumber_injective (Prod.mk.inj (Option.some.inj hm)).1.symm

end Json

end WarmPool
