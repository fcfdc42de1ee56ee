import WarmPool.Proofs.Json.Canonical
import WarmPool.Proofs.Json.Text

/-!
# Canonical text as a normal form

The canonical text of a value reads back as its canonical form, so that it is its own canonical
text, and it is shared by exactly the values that are alike (`Json.canonical_text_faithful`). What
is read back are the literals of the text; a literal without repeated keys denotes the value it was
written for, as far as its numerals denote their numbers (`Literal.value?_ofJson`). Whatever a text
denotes is without repeated keys (`Json.wellFormed_of_parse?`).
-/

namespace WarmPool

open Json

namespace Json

/-! ### Reading text -/

/-- The value that a text denotes if its containers are nested no deeper than `depth`. -/
def parseWithin? (depth : Nat) (text : String) : Option Json :=
  (Literal.parseChars? depth text.toList).bind (Literal.value? depth)

theorem parse?_eq_parseWithin? : parse? = parseWithin? maxDepth := rfl

mutual

/-- The numbers in a value. -/
def numbers : Json → List Number
  | .number n => [n]
  | .array items => numbersItems items
  | .object fields => numbersFields fields
  | _ => []

/-- The numbers in the elements. -/
def numbersItems : List Json → List Number
  | [] => []
  | v :: rest => v.numbers ++ numbersItems rest

/-- The numbers in the values of the fields. -/
def numbersFields : List (String × Json) → List Number
  | [] => []
  | (_, v) :: rest => v.numbers ++ numbersFields rest

end

theorem wellFormedFields_setField {key : String} {v : Json} {fields : List (String × Json)}
    (hv : v.WellFormed) (h : WellFormedFields fields) :
    WellFormedFields (setField key v fields) := by
  induction fields with
  | nil => exact ⟨hv, trivial⟩
  | cons f fields ih =>
    obtain ⟨k, w⟩ := f
    rw [WellFormedFields] at h
    rw [setField]
    split
    · exact ⟨hv, h.2⟩
    · exact ⟨h.1, ih h.2⟩

end Json

namespace Literal

/-! ### What literals denote -/

mutual

/-- The literal of a value without repeated keys denotes it, if its numerals denote its numbers. -/
theorem value?_ofJson (v : Json) (depth : Nat) (hv : v.WellFormed) (hdepth : v.depth ≤ depth)
    (hnumbers : ∀ n ∈ v.numbers, (Numeral.ofNumber n).number? = some n) :
    value? depth (ofJson v) = some v := by
  match v with
  | .null => cases depth <;> rfl
  | .bool b => cases depth <;> rfl
  | .number n =>
    have hn := hnumbers n List.mem_cons_self
    rw [ofJson, value?, hn]
    rfl
  | .string s => cases depth <;> rfl
  | .array items =>
    rw [Json.depth] at hdepth
    obtain ⟨depth, rfl⟩ : ∃ k, depth = k + 1 := ⟨depth - 1, by omega⟩
    rw [WellFormed] at hv
    rw [ofJson, value?, items?_ofItems items depth hv (by omega) hnumbers]
    rfl
  | .object fields =>
    rw [Json.depth] at hdepth
    obtain ⟨depth, rfl⟩ : ∃ k, depth = k + 1 := ⟨depth - 1, by omega⟩
    rw [WellFormed] at hv
    have hfields := fields?_ofFields fields [] depth hv.1 hv.2 (by omega) hnumbers
    rw [ofJson, value?, hfields]
    rfl

theorem items?_ofItems (items : List Json) (depth : Nat) (hitems : WellFormedItems items)
    (hdepth : depthItems items ≤ depth)
    (hnumbers : ∀ n ∈ numbersItems items, (Numeral.ofNumber n).number? = some n) :
    items? depth (ofItems items) = some items := by
  match items with
  | [] => cases depth <;> rfl
  | v :: items =>
    rw [WellFormedItems] at hitems
    rw [depthItems] at hdepth
    rw [numbersItems, List.forall_mem_append] at hnumbers
    have hv := value?_ofJson v depth hitems.1 (by omega) hnumbers.1
    have hrest := items?_ofItems items depth hitems.2 (by omega) hnumbers.2
    rw [ofItems, items?, hv, hrest]

theorem fields?_ofFields (fields before : List (String × Json)) (depth : Nat)
    (hkeys : ((before ++ fields).map Prod.fst).Nodup) (hfields : WellFormedFields fields)
    (hdepth : depthFields fields ≤ depth)
    (hnumbers : ∀ n ∈ numbersFields fields, (Numeral.ofNumber n).number? = some n) :
    fields? depth before (ofFields fields) = some (before ++ fields) := by
  match fields with
  | [] => rw [ofFields, fields?, List.append_nil]
  | (k, v) :: fields =>
    rw [WellFormedFields] at hfields
    rw [depthFields] at hdepth
    rw [numbersFields, List.forall_mem_append] at hnumbers
    have hv := value?_ofJson v depth hfields.1 (by omega) hnumbers.1
    have hnew : k ∉ before.map Prod.fst := by
      rw [List.map_append, List.map_cons, List.nodup_append] at hkeys
      intro hk
      exact hkeys.2.2 k hk k List.mem_cons_self rfl
    have hsplit : before ++ (k, v) :: fields = (before ++ [(k, v)]) ++ fields := by simp
    rw [hsplit] at hkeys ⊢
    have hrest := fields?_ofFields fields (before ++ [(k, v)]) depth hkeys hfields.2 (by omega)
      hnumbers.2
    rw [ofFields, fields?.eq_def]
    simp only [hv, setField_of_new hnew, hrest]

end

mutual

/-- What a literal denotes has no key twice. -/
theorem wellFormed_of_value? (l : Literal) (depth : Nat) (v : Json) (h : value? depth l = some v) :
    v.WellFormed := by
  match l with
  | .null =>
    rw [value?, Option.some.injEq] at h
    exact h ▸ trivial
  | .bool b =>
    rw [value?, Option.some.injEq] at h
    exact h ▸ trivial
  | .number n =>
    rw [value?, Option.map_eq_some_iff] at h
    obtain ⟨_, -, rfl⟩ := h
    trivial
  | .string s =>
    rw [value?, Option.map_eq_some_iff] at h
    obtain ⟨_, -, rfl⟩ := h
    trivial
  | .array items =>
    cases depth with
    | zero => cases h
    | succ depth =>
      rw [value?, Option.map_eq_some_iff] at h
      obtain ⟨values, hvalues, rfl⟩ := h
      rw [WellFormed]
      exact wellFormed_of_items? items depth values hvalues
  | .object fields =>
    cases depth with
    | zero => cases h
    | succ depth =>
      rw [value?, Option.map_eq_some_iff] at h
      obtain ⟨values, hvalues, rfl⟩ := h
      rw [WellFormed]
      exact wellFormed_of_fields? fields [] depth values List.nodup_nil trivial hvalues

theorem wellFormed_of_items? (items : List Literal) (depth : Nat) (values : List Json)
    (h : items? depth items = some values) : WellFormedItems values := by
  match items with
  | [] =>
    rw [items?, Option.some.injEq] at h
    exact h ▸ trivial
  | l :: items =>
    rw [items?] at h
    split at h
    · rename_i v rest hv hrest
      rw [← Option.some.inj h, WellFormedItems]
      exact ⟨wellFormed_of_value? l depth v hv, wellFormed_of_items? items depth rest hrest⟩
    · cases h

theorem wellFormed_of_fields? (fields : List (Option String × Literal))
    (before : List (String × Json)) (depth : Nat) (values : List (String × Json))
    (hkeys : (before.map Prod.fst).Nodup) (hbefore : WellFormedFields before)
    (h : fields? depth before fields = some values) :
    (values.map Prod.fst).Nodup ∧ WellFormedFields values := by
  match fields with
  | [] =>
    rw [fields?, Option.some.injEq] at h
    exact h ▸ ⟨hkeys, hbefore⟩
  | (key, l) :: fields =>
    rw [fields?.eq_def] at h
    simp only at h
    split at h
    · rename_i k v hv
      exact wellFormed_of_fields? fields _ depth values (nodup_setField hkeys)
        (wellFormedFields_setField (wellFormed_of_value? l depth v hv) hbefore) h
    · cases h

end

end Literal

namespace Json

/-- What a text denotes has no key twice. -/
theorem wellFormed_of_parse? {text : String} {v : Json} (h : parse? text = some v) :
    v.WellFormed := by
  obtain ⟨l, -, hl⟩ := Option.bind_eq_some_iff.1 h
  exact Literal.wellFormed_of_value? l maxDepth v hl

/-! ### The depth of the canonical form -/

theorem depthFields_of_perm {a b : List (String × Json)} (h : a.Perm b) :
    depthFields a = depthFields b := by
  induction h with
  | nil => rfl
  | cons f _ ih => rw [depthFields, depthFields, ih]
  | swap f g l =>
    rw [depthFields, depthFields, depthFields, depthFields]
    exact max_left_comm _ _ _
  | trans _ _ ih ih' => exact ih.trans ih'

mutual

/-- The canonical form is nested as deep as the value. -/
theorem depth_canonicalize (v : Json) : v.canonicalize.depth = v.depth := by
  match v with
  | .null => rfl
  | .bool _ => rfl
  | .number _ => rfl
  | .string _ => rfl
  | .array items => rw [canonicalize, depth, depth, depthItems_canonicalizeItems items]
  | .object fields =>
    rw [canonicalize, depth, depth, depthFields_of_perm (sortFields_perm _),
      depthFields_canonicalizeFields fields]

theorem depthItems_canonicalizeItems (items : List Json) :
    depthItems (canonicalizeItems items) = depthItems items := by
  match items with
  | [] => rfl
  | v :: items =>
    rw [canonicalizeItems, depthItems, depthItems, depth_canonicalize v,
      depthItems_canonicalizeItems items]

theorem depthFields_canonicalizeFields (fields : List (String × Json)) :
    depthFields (canonicalizeFields fields) = depthFields fields := by
  match fields with
  | [] => rfl
  | (_, v) :: fields =>
    rw [canonicalizeFields, depthFields, depthFields, depth_canonicalize v,
      depthFields_canonicalizeFields fields]

end

/-! ### Text and back -/

/-- The text of a number denotes what its numeral denotes. -/
theorem parse?_number (n : Number) :
    parse? (number n).compact = (Numeral.ofNumber n).number?.map .number := by
  have hdepth : (number n).depth ≤ maxDepth := Nat.zero_le _
  unfold parse? parseChars?
  rw [Literal.parseChars?_compact hdepth, Option.bind_some, Literal.ofJson, Literal.value?]

/-- A value whose numbers read back reads back from its compact text. -/
theorem parseWithin?_compact {v : Json} {depth : Nat} (hv : v.WellFormed) (hdepth : v.depth ≤ depth)
    (hfloats : ∀ x, .float x ∈ v.numbers →
      parse? (number (.float x)).compact = some (.number (.float x))) :
    parseWithin? depth v.compact = some v := by
  have hnumbers : ∀ n ∈ v.numbers, (Numeral.ofNumber n).number? = some n := by
    intro n hn
    cases n with
    | integer i ge lt => exact Numeral.number?_ofInteger ge lt
    | float x =>
      have hread := hfloats x hn
      rw [parse?_number, Option.map_eq_some_iff] at hread
      obtain ⟨n, hn, heq⟩ := hread
      rw [hn, number.inj heq]
  unfold parseWithin?
  rw [Literal.parseChars?_compact hdepth, Option.bind_some,
    Literal.value?_ofJson v depth hv hdepth hnumbers]

/--
Canonical text is a normal form. It reads back as the canonical form of its value, given that the
floats left in it read back and that containers may be nested deep enough, and so it is the
canonical text of what it denotes. The values that share it are those that are alike, which takes
nothing for granted.
-/
theorem canonical_text_faithful {v : Json} (hv : v.WellFormed) :
    (∀ depth, v.depth ≤ depth →
      (∀ x, .float x ∈ v.canonicalize.numbers →
        parse? (number (.float x)).compact = some (.number (.float x))) →
      parseWithin? depth v.canonicalText = some v.canonicalize ∧
        (parseWithin? depth v.canonicalText).map canonicalText = some v.canonicalText) ∧
    ∀ w : Json, v.canonicalText = w.canonicalText ↔ v.Alike w := by
  constructor
  · intro depth hdepth hfloats
    have hread : parseWithin? depth v.canonicalText = some v.canonicalize :=
      parseWithin?_compact hv.canonicalize (v.depth_canonicalize ▸ hdepth) hfloats
    refine ⟨hread, ?_⟩
    rw [hread, Option.map_some]
    unfold canonicalText
    rw [canonicalize_idem hv]
  · intro w
    rw [← canonicalize_eq_iff hv]
    exact ⟨fun h => compact_injective h, fun h => congrArg compact h⟩

/-- One half, which no integer is. -/
def half : Number := .float ((Binary64.ofRatio? false 1 2).getD default)

/-- An object with its keys out of order, an integral float and one that is not. -/
def shuffled : Json :=
  .object [("b", .array [.number half, .null]), ("a", .number (.float (Binary64.powerOfTen 0)))]

/-- The same in order, with the integer as such. -/
def tidy : Json := .object [("a", ofInt 1), ("b", .array [.number half, .null])]

theorem canonical_text_faithful_sample :
    shuffled.WellFormed ∧ parse? shuffled.canonicalText = some tidy ∧
      (parse? shuffled.canonicalText).map canonicalText = some shuffled.canonicalText ∧
      shuffled.canonicalText = tidy.canonicalText ∧ shuffled.Alike tidy := by
  have hwell : shuffled.WellFormed := by
    simp [shuffled, WellFormed, WellFormedFields, WellFormedItems]
  have hcanonical : shuffled.canonicalize = tidy := by decide
  have hnumbers : shuffled.canonicalize.numbers = tidy.numbers := congrArg numbers hcanonical
  have hfloats (x : Binary64) (hx : .float x ∈ shuffled.canonicalize.numbers) :
      parse? (number (.float x)).compact = some (.number (.float x)) := by
    have htwo : tidy.numbers = [.integer 1 (by decide) (by decide), half] := by decide
    rw [hnumbers, htwo, List.mem_cons, List.mem_singleton] at hx
    have hhalf : Number.float x = half := hx.resolve_left Number.noConfusion
    rw [hhalf, parse?_number]
    decide
  obtain ⟨hreads, halike⟩ := canonical_text_faithful hwell
  obtain ⟨hread, hsame⟩ := hreads maxDepth (by decide) hfloats
  rw [← parse?_eq_parseWithin?] at hread hsame
  have hshared : shuffled.canonicalText = tidy.canonicalText := by
    unfold canonicalText
    rw [hcanonical]
    decide
  exact ⟨hwell, hcanonical ▸ hread, hsame, hshared, (halike tidy).1 hshared⟩

end Json

end WarmPool
