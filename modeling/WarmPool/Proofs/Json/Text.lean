import WarmPool.Json.Parser
import WarmPool.Proofs.Json.Numeral

/-!
# Compact text reads back

The compact text of a value is that of one literal, its numerals, strings and fields as they stand
(`Literal.ofJson`), and the parser reads back exactly that literal, whatever follows, given enough
levels of nesting (`Literal.parseValue?_writeValue`, `Literal.parse?_compact`). Each part of the
text is told from the next by its first character. So distinct values have distinct texts
(`Json.compact_injective`).
-/

namespace WarmPool

open Json

/-! ### Values as literals -/

namespace Json

mutual

/-- How deep containers are nested. -/
def depth : Json → Nat
  | .array items => depthItems items + 1
  | .object fields => depthFields fields + 1
  | _ => 0

/-- How deep the deepest element is. -/
def depthItems : List Json → Nat
  | [] => 0
  | v :: rest => max v.depth (depthItems rest)

/-- How deep the deepest value of a field is. -/
def depthFields : List (String × Json) → Nat
  | [] => 0
  | (_, v) :: rest => max v.depth (depthFields rest)

end

end Json

namespace Literal

mutual

/-- The literal that a value is written as. -/
def ofJson : Json → Literal
  | .null => .null
  | .bool b => .bool b
  | .number n => .number (Numeral.ofNumber n)
  | .string s => .string (some s)
  | .array items => .array (ofItems items)
  | .object fields => .object (ofFields fields)

/-- The literals of the elements. -/
def ofItems : List Json → List Literal
  | [] => []
  | v :: rest => ofJson v :: ofItems rest

/-- The literals of the fields. -/
def ofFields : List (String × Json) → List (Option String × Literal)
  | [] => []
  | (k, v) :: rest => (some k, ofJson v) :: ofFields rest

end

/-! ### Characters -/

variable {c : Char} {cs rest : List Char} {fuel depth : Nat}

/-- The text starts neither with a blank nor with a closing bracket. -/
def Opens (cs : List Char) : Prop := ∃ c ∈ cs.head?, isBlank c = false ∧ c ≠ ']'

theorem skipBlanks_cons (h : isBlank c = false) : skipBlanks (c :: cs) = c :: cs := by
  rw [skipBlanks, h]
  rfl

theorem length_pos_of_opens (h : Opens cs) : 0 < cs.length := by
  obtain ⟨c, hc, -⟩ := h
  cases cs with
  | nil => cases hc
  | cons c' cs => exact Nat.succ_pos _

/-! ### Strings -/

theorem hexValue?_hexDigit {n : Nat} (h : n < 16) : hexValue? (hexDigit n) = some n := by
  interval_cases n <;> rfl

/-- Four digits that denote a character below the space. -/
theorem parseEscape?_unit (hc : c.toNat < 0x20) :
    parseEscape? ('u' :: '0' :: '0' :: hexDigit (c.toNat / 16) :: hexDigit (c.toNat % 16) :: rest) =
      some (some c, rest) := by
  have hhigh := hexValue?_hexDigit (show c.toNat / 16 < 16 by omega)
  have hlow := hexValue?_hexDigit (show c.toNat % 16 < 16 by omega)
  have hzero : hexValue? '0' = some 0 := rfl
  have hunit : 4096 * 0 + 256 * 0 + 16 * (c.toNat / 16) + c.toNat % 16 = c.toNat := by omega
  have hplain : c.toNat < 0xD800 := by omega
  have hsame : Char.ofNat c.toNat = c := Char.ofNat_toNat c
  show parseCodePoint? _ = _
  unfold parseCodePoint? parseUnit?
  simp only [hzero, hhigh, hlow, hunit, Option.bind_eq_bind, Option.bind_some, Option.pure_def,
    hplain, decide_true, Bool.true_or, ↓reduceIte, hsame]

/-- A character is written as an escape that denotes it, or as itself. -/
theorem escapedChar_cases (c : Char) (rest : List Char) :
    (∃ escape, escapedChar c = '\\' :: escape ∧
      parseEscape? (escape ++ rest) = some (some c, rest)) ∨
    (escapedChar c = [c] ∧ c ≠ '"' ∧ c ≠ '\\' ∧ ¬ c.toNat < 0x20) := by
  unfold escapedChar
  -- Seven characters have an escape of their own.
  iterate 7
    split
    · rename_i hc
      subst hc
      exact .inl ⟨_, rfl, rfl⟩
  split
  · rename_i hcontrol
    exact .inl ⟨_, rfl, parseEscape?_unit hcontrol⟩
  · rename_i hquote hbackslash _ _ _ _ _ hplain
    exact .inr ⟨rfl, hquote, hbackslash, hplain⟩

/-- A character inside quotes reads back. -/
theorem parseStringTail?_escapedChar (acc : List Char) :
    parseStringTail? (fuel + 1) (some acc) (escapedChar c ++ rest) =
      parseStringTail? fuel (some (c :: acc)) rest := by
  rcases escapedChar_cases c rest with ⟨escape, heq, hescape⟩ | ⟨heq, hquote, hbackslash, hplain⟩
  · rw [heq, List.cons_append, parseStringTail?, hescape]
    rfl
  · rw [heq, List.cons_append, List.nil_append, parseStringTail?.eq_def]
    simp only
    rw [if_neg hplain]
    rfl

theorem parseStringTail?_flatMap (s acc : List Char) (h : s.length < fuel) :
    parseStringTail? fuel (some acc) (s.flatMap escapedChar ++ '"' :: rest) =
      some (some (acc.reverse ++ s), rest) := by
  induction s generalizing fuel acc with
  | nil =>
    obtain ⟨fuel, rfl⟩ : ∃ k, fuel = k + 1 := ⟨fuel - 1, by omega⟩
    simp [parseStringTail?]
  | cons c s ih =>
    obtain ⟨fuel, rfl⟩ : ∃ k, fuel = k + 1 := ⟨fuel - 1, by omega⟩
    rw [List.flatMap_cons, List.append_assoc, parseStringTail?_escapedChar,
      ih _ (by simpa using h)]
    simp

theorem length_le_flatMap_escapedChar (s : List Char) :
    s.length ≤ (s.flatMap escapedChar).length := by
  induction s with
  | nil => exact Nat.le_refl _
  | cons c s ih =>
    have hpos : 1 ≤ (escapedChar c).length := by
      unfold escapedChar
      repeat' split
      all_goals simp
    rw [List.flatMap_cons, List.length_append, List.length_cons]
    omega

/-- A string reads back. -/
theorem parseString?_stringChars (s : String) :
    ∃ tail, stringChars s ++ rest = '"' :: tail ∧ parseString? tail = some (some s, rest) := by
  refine ⟨s.toList.flatMap escapedChar ++ '"' :: rest, by simp [stringChars], ?_⟩
  have hlength := length_le_flatMap_escapedChar s.toList
  unfold parseString?
  rw [parseStringTail?_flatMap _ _ (by rw [List.length_append]; omega)]
  simp

/-! ### Where parts begin -/

theorem opens_cons (hblank : isBlank c = false) (hc : c ≠ ']') : Opens (c :: cs) :=
  ⟨c, rfl, hblank, hc⟩

/-- A number starts with a sign or a digit. -/
theorem numberChars_eq_cons (n : Number) :
    ∃ c tail, numberChars n = c :: tail ∧ (c = '-' ∨ c.isDigit = true) := by
  obtain ⟨digit, digits, hintegral, hdigit⟩ := (Numeral.wellFormed_ofNumber n).integral_eq_cons
  rw [← Numeral.chars_ofNumber]
  unfold Numeral.chars
  rw [hintegral]
  cases (Numeral.ofNumber n).negative with
  | true => exact ⟨_, _, rfl, .inl rfl⟩
  | false => exact ⟨_, _, rfl, .inr hdigit⟩

/-- A digit is none of the characters that tell other literals. -/
theorem ne_of_sign_or_digit (h : c = '-' ∨ c.isDigit = true) :
    isBlank c = false ∧ c ∉ ['n', 't', 'f', '"', '[', '{', ']'] := by
  rcases h with rfl | h
  · decide
  · constructor
    · unfold isBlank
      simp only [Bool.or_eq_false_iff, decide_eq_false_iff_not]
      refine ⟨⟨⟨?_, ?_⟩, ?_⟩, ?_⟩ <;> (rintro rfl; revert h; decide)
    · intro hmem
      simp only [List.mem_cons, List.not_mem_nil, or_false] at hmem
      rcases hmem with rfl | rfl | rfl | rfl | rfl | rfl | rfl <;> (revert h; decide)

/-- A value starts neither with a blank nor with a closing bracket. -/
theorem opens_writeValue (v : Json) (rest : List Char) : Opens (writeValue v rest) := by
  cases v with
  | null => exact opens_cons rfl (by decide)
  | bool b =>
    cases b with
    | true => exact opens_cons rfl (by decide)
    | false => exact opens_cons rfl (by decide)
  | number n =>
    obtain ⟨c, tail, hcons, hc⟩ := numberChars_eq_cons n
    obtain ⟨hblank, hne⟩ := ne_of_sign_or_digit hc
    rw [writeValue, hcons]
    exact opens_cons hblank fun heq => hne (by simp [heq])
  | string s => exact opens_cons rfl (by decide)
  | array items => exact opens_cons rfl (by decide)
  | object fields => exact opens_cons rfl (by decide)

/-- Where a number may stand, the grammar of numbers decides. -/
theorem parseValue?_of_number (h : c = '-' ∨ c.isDigit = true) :
    parseValue? (fuel + 1) depth (c :: cs) =
      (Numeral.parse? (c :: cs)).map fun (n, rest) => (.number n, rest) := by
  obtain ⟨hblank, hne⟩ := ne_of_sign_or_digit h
  simp only [List.mem_cons, List.not_mem_nil, or_false, not_or] at hne
  obtain ⟨hn, ht, hf, hquote, hbracket, hbrace, -⟩ := hne
  rw [parseValue?, skipBlanks_cons hblank]
  split
  · rename_i heq
    exact absurd (List.cons.inj heq).1 hn
  · rename_i heq
    exact absurd (List.cons.inj heq).1 ht
  · rename_i heq
    exact absurd (List.cons.inj heq).1 hf
  · rename_i heq
    exact absurd (List.cons.inj heq).1 hquote
  · rename_i heq
    exact absurd (List.cons.inj heq).1 hbracket
  · rename_i heq
    exact absurd (List.cons.inj heq).1 hbrace
  · rfl

/-- An array whose elements come next. -/
theorem parseValue?_of_bracket (h : Opens cs) :
    parseValue? (fuel + 1) (depth + 1) ('[' :: cs) =
      (parseItems? fuel depth cs).map fun (items, rest) => (.array items, rest) := by
  obtain ⟨c, hc, hblank, hne⟩ := h
  cases cs with
  | nil => cases hc
  | cons c' cs =>
    cases hc
    rw [parseValue?, skipBlanks_cons rfl]
    simp only [skipBlanks_cons hblank]
    split
    · rename_i heq
      exact absurd (List.cons.inj heq).1 hne
    · rfl

/-- An object whose first key comes next. -/
theorem parseValue?_of_brace :
    parseValue? (fuel + 1) (depth + 1) ('{' :: '"' :: cs) =
      (parseFields? fuel depth ('"' :: cs)).map fun (fields, rest) => (.object fields, rest) := by
  rw [parseValue?, skipBlanks_cons rfl]
  simp only [skipBlanks_cons (show isBlank '"' = false from rfl)]
  rfl

/-! ### Reading compact text -/

mutual

/-- The text in front of what follows has a character for every level of nesting. -/
theorem length_le_writeValue (v : Json) (rest : List Char) :
    v.depth + rest.length ≤ (writeValue v rest).length := by
  match v with
  | .null => simp [writeValue, Json.depth]; omega
  | .bool true => simp [writeValue, Json.depth]; omega
  | .bool false => simp [writeValue, Json.depth]; omega
  | .number n => simp [writeValue, Json.depth]
  | .string s => simp [writeValue, Json.depth]
  | .array items =>
    have hitems := length_le_writeItems items true rest
    rw [writeValue, Json.depth, List.length_cons]
    omega
  | .object fields =>
    have hfields := length_le_writeFields fields true rest
    rw [writeValue, Json.depth, List.length_cons]
    omega

theorem length_le_writeItems (items : List Json) (first : Bool) (rest : List Char) :
    depthItems items + rest.length ≤ (writeItems items first rest).length := by
  match items with
  | [] => simp [writeItems, depthItems]
  | v :: items =>
    have hitems := length_le_writeItems items false rest
    have hv := length_le_writeValue v (writeItems items false rest)
    rw [writeItems, depthItems]
    cases first with
    | true =>
      show _ ≤ (writeValue v (writeItems items false rest)).length
      omega
    | false =>
      show _ ≤ (writeValue v (writeItems items false rest)).length + 1
      omega

theorem length_le_writeFields (fields : List (String × Json)) (first : Bool) (rest : List Char) :
    depthFields fields + rest.length ≤ (writeFields fields first rest).length := by
  match fields with
  | [] => simp [writeFields, depthFields]
  | (k, v) :: fields =>
    have hfields := length_le_writeFields fields false rest
    have hv := length_le_writeValue v (writeFields fields false rest)
    rw [writeFields, depthFields]
    cases first with
    | true =>
      simp only [↓reduceIte, List.length_append, List.length_cons]
      omega
    | false =>
      simp only [Bool.false_eq_true, ↓reduceIte, List.length_append, List.length_cons]
      omega

end

/-- A numeral does not go on with a comma or a closing bracket. -/
theorem stops_cons (h : c = ',' ∨ c = ']' ∨ c = '}') : Numeral.Stops (c :: cs) := by
  rintro c' ⟨⟩
  rcases h with rfl | rfl | rfl <;> decide

theorem stops_writeItems (items : List Json) (rest : List Char) :
    Numeral.Stops (writeItems items false rest) := by
  cases items with
  | nil => exact stops_cons (.inr (.inl rfl))
  | cons v items => exact stops_cons (.inl rfl)

theorem stops_writeFields (fields : List (String × Json)) (rest : List Char) :
    Numeral.Stops (writeFields fields false rest) := by
  cases fields with
  | nil => exact stops_cons (.inr (.inr rfl))
  | cons f fields => exact stops_cons (.inl rfl)

mutual

/-- The text of a value reads back, and nothing of what follows is read. -/
theorem parseValue?_writeValue (v : Json) (rest : List Char) (fuel depth : Nat)
    (hfuel : 2 * (writeValue v rest).length ≤ fuel) (hdepth : v.depth ≤ depth)
    (hrest : Numeral.Stops rest) :
    parseValue? fuel depth (writeValue v rest) = some (ofJson v, rest) := by
  have hpos := length_pos_of_opens (opens_writeValue v rest)
  obtain ⟨fuel, rfl⟩ : ∃ k, fuel = k + 1 := ⟨fuel - 1, by omega⟩
  match v with
  | .null => rfl
  | .bool true => rfl
  | .bool false => rfl
  | .number n =>
    obtain ⟨c, tail, hcons, hc⟩ := numberChars_eq_cons n
    have hparse := Numeral.parse?_numberChars n hrest
    rw [writeValue]
    rw [hcons, List.cons_append] at hparse ⊢
    rw [parseValue?_of_number hc, hparse]
    rfl
  | .string s =>
    obtain ⟨tail, hcons, hparse⟩ := @parseString?_stringChars rest s
    rw [writeValue, hcons, parseValue?, skipBlanks_cons rfl]
    simp only [hparse]
    rfl
  | .array [] =>
    rw [Json.depth] at hdepth
    obtain ⟨depth, rfl⟩ : ∃ k, depth = k + 1 := ⟨depth - 1, by omega⟩
    rfl
  | .array (v :: items) =>
    rw [Json.depth] at hdepth
    obtain ⟨depth, rfl⟩ : ∃ k, depth = k + 1 := ⟨depth - 1, by omega⟩
    rw [writeValue, List.length_cons] at hfuel
    have hitems := parseItems?_writeItems (v :: items) rest fuel depth (List.cons_ne_nil _ _)
      (by omega) (by omega)
    have hopens : Opens (writeItems (v :: items) true rest) := opens_writeValue v _
    rw [writeValue, parseValue?_of_bracket hopens, hitems]
    rfl
  | .object [] =>
    rw [Json.depth] at hdepth
    obtain ⟨depth, rfl⟩ : ∃ k, depth = k + 1 := ⟨depth - 1, by omega⟩
    rfl
  | .object ((k, v) :: fields) =>
    rw [Json.depth] at hdepth
    obtain ⟨depth, rfl⟩ : ∃ k, depth = k + 1 := ⟨depth - 1, by omega⟩
    rw [writeValue, List.length_cons] at hfuel
    have hfields := parseFields?_writeFields ((k, v) :: fields) rest fuel depth
      (List.cons_ne_nil _ _) (by omega) (by omega)
    obtain ⟨tail, hcons, -⟩ :=
      @parseString?_stringChars (':' :: writeValue v (writeFields fields false rest)) k
    have hquote : writeFields ((k, v) :: fields) true rest = '"' :: tail := hcons
    rw [hquote] at hfields
    rw [writeValue, hquote, parseValue?_of_brace, hfields]
    rfl

/-- The elements of an array read back up to its closing bracket. -/
theorem parseItems?_writeItems (items : List Json) (rest : List Char) (fuel depth : Nat)
    (hne : items ≠ []) (hfuel : 2 * (writeItems items true rest).length < fuel)
    (hdepth : depthItems items ≤ depth) :
    parseItems? fuel depth (writeItems items true rest) = some (ofItems items, rest) := by
  obtain ⟨fuel, rfl⟩ : ∃ k, fuel = k + 1 := ⟨fuel - 1, by omega⟩
  match items with
  | [] => exact absurd rfl hne
  | v :: items =>
    have htext : writeItems (v :: items) true rest =
        writeValue v (writeItems items false rest) := rfl
    have hlength := length_le_writeValue v (writeItems items false rest)
    rw [depthItems] at hdepth
    rw [htext] at hfuel ⊢
    have hv := parseValue?_writeValue v (writeItems items false rest) fuel depth (by omega)
      (by omega) (stops_writeItems items rest)
    rw [parseItems?, hv]
    match items with
    | [] => rfl
    | w :: items =>
      have hnext : writeItems (w :: items) false rest =
          ',' :: writeItems (w :: items) true rest := rfl
      rw [hnext] at hlength hfuel ⊢
      rw [List.length_cons] at hlength
      have hitems := parseItems?_writeItems (w :: items) rest fuel depth (List.cons_ne_nil _ _)
        (by omega) (by omega)
      simp only [skipBlanks_cons (show isBlank ',' = false from rfl), hitems]
      rfl

/-- The fields of an object read back up to its closing brace. -/
theorem parseFields?_writeFields (fields : List (String × Json)) (rest : List Char)
    (fuel depth : Nat) (hne : fields ≠ [])
    (hfuel : 2 * (writeFields fields true rest).length < fuel)
    (hdepth : depthFields fields ≤ depth) :
    parseFields? fuel depth (writeFields fields true rest) = some (ofFields fields, rest) := by
  obtain ⟨fuel, rfl⟩ : ∃ k, fuel = k + 1 := ⟨fuel - 1, by omega⟩
  match fields with
  | [] => exact absurd rfl hne
  | (k, v) :: fields =>
    obtain ⟨tail, hcons, hkey⟩ :=
      @parseString?_stringChars (':' :: writeValue v (writeFields fields false rest)) k
    have htext : writeFields ((k, v) :: fields) true rest = '"' :: tail := hcons
    have hlength := length_le_writeValue v (writeFields fields false rest)
    have hlonger : (writeValue v (writeFields fields false rest)).length ≤ tail.length := by
      have hsum := congrArg List.length hcons
      simp only [stringChars, List.length_append, List.length_cons] at hsum
      omega
    rw [depthFields] at hdepth
    rw [htext, List.length_cons] at hfuel
    have hv := parseValue?_writeValue v (writeFields fields false rest) fuel depth (by omega)
      (by omega) (stops_writeFields fields rest)
    rw [htext, parseFields?, skipBlanks_cons rfl]
    simp only [hkey, skipBlanks_cons (show isBlank ':' = false from rfl), hv]
    match fields with
    | [] => rfl
    | (l, w) :: fields =>
      have hnext : writeFields ((l, w) :: fields) false rest =
          ',' :: writeFields ((l, w) :: fields) true rest := rfl
      rw [hnext] at hlength hlonger ⊢
      rw [List.length_cons] at hlength
      have hfields := parseFields?_writeFields ((l, w) :: fields) rest fuel depth
        (List.cons_ne_nil _ _) (by omega) (by omega)
      simp only [skipBlanks_cons (show isBlank ',' = false from rfl), hfields]
      rfl

end

/-- Compact text is that of one literal. -/
theorem parseChars?_compact {v : Json} (h : v.depth ≤ depth) :
    parseChars? depth v.compact.toList = some (ofJson v) := by
  have htext : v.compact.toList = writeValue v [] := by simp [compact]
  have hstops : Numeral.Stops [] := fun c hc => nomatch hc
  have hv := parseValue?_writeValue v [] (2 * (writeValue v []).length + 2) depth (by omega) h
    hstops
  rw [htext, parseChars?, hv]
  rfl

/-- The text is long enough for its own nesting. -/
theorem parse?_compact (v : Json) : parse? v.compact = some (ofJson v) := by
  have hlength := length_le_writeValue v []
  refine parseChars?_compact (show v.depth ≤ v.compact.toList.length from ?_)
  rw [compact, String.toList_ofList]
  exact (Nat.le_add_right _ _).trans hlength

/-! ### Distinct values -/

mutual

/-- Distinct values are distinct literals. -/
theorem eq_of_ofJson_eq (v w : Json) (h : ofJson v = ofJson w) : v = w := by
  match v with
  | .null => cases w <;> simp_all [ofJson]
  | .bool b => cases w <;> simp_all [ofJson]
  | .number n =>
    cases w with
    | number m =>
      rw [ofJson, ofJson, Literal.number.injEq] at h
      rw [Numeral.ofNumber_injective h]
    | _ => simp [ofJson] at h
  | .string s => cases w <;> simp_all [ofJson]
  | .array items =>
    cases w with
    | array items' =>
      rw [ofJson, ofJson, Literal.array.injEq] at h
      rw [eq_of_ofItems_eq items items' h]
    | _ => simp [ofJson] at h
  | .object fields =>
    cases w with
    | object fields' =>
      rw [ofJson, ofJson, Literal.object.injEq] at h
      rw [eq_of_ofFields_eq fields fields' h]
    | _ => simp [ofJson] at h

theorem eq_of_ofItems_eq (items items' : List Json) (h : ofItems items = ofItems items') :
    items = items' := by
  match items with
  | [] => cases items' <;> simp_all [ofItems]
  | v :: items =>
    cases items' with
    | nil => simp [ofItems] at h
    | cons w items' =>
      rw [ofItems, ofItems, List.cons.injEq] at h
      rw [eq_of_ofJson_eq v w h.1, eq_of_ofItems_eq items items' h.2]

theorem eq_of_ofFields_eq (fields fields' : List (String × Json))
    (h : ofFields fields = ofFields fields') : fields = fields' := by
  match fields with
  | [] => cases fields' <;> simp_all [ofFields]
  | (k, v) :: fields =>
    cases fields' with
    | nil => simp [ofFields] at h
    | cons f fields' =>
      obtain ⟨l, w⟩ := f
      rw [ofFields, ofFields, List.cons.injEq, Prod.mk.injEq, Option.some.injEq] at h
      rw [h.1.1, eq_of_ofJson_eq v w h.1.2, eq_of_ofFields_eq fields fields' h.2]

end

end Literal

/-- Distinct values have distinct compact texts. -/
theorem Json.compact_injective : Function.Injective Json.compact := by
  intro v w h
  have hv := @Literal.parseChars?_compact (max v.depth w.depth) v (le_max_left _ _)
  have hw := @Literal.parseChars?_compact (max v.depth w.depth) w (le_max_right _ _)
  rw [h, hw] at hv
  exact (Literal.eq_of_ofJson_eq w v (Option.some.inj hv)).symm

end WarmPool
