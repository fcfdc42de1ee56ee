import WarmPool.Proofs.Encoding
import WarmPool.Proofs.Json.Canonical
import WarmPool.Proofs.Json.Text
import WarmPool.TemplateKey

/-!
# Template keys

Templates share a key only through the digest. What is left out of a template as it is written is
left out for one value only, and no field is lost in the canonical form, so the canonical text
determines the template (`Template.canonicalText_injective`) and distinct templates share a key
exactly when their texts are distinct bytes whose digests start alike (`Template.key_eq_iff`).
-/

namespace WarmPool

namespace Json

/-! ### What the canonical form tells apart -/

/-- Values that differ are written with different canonical forms. -/
def Distinguishes {α : Type} (encode : α → Json) : Prop :=
  ∀ a b, (encode a).canonicalize = (encode b).canonicalize → a = b

variable {α : Type} {encode : α → Json}

/-- What is written in canonical form and reads back is told apart. -/
theorem distinguishes_of_decode {decode : Json → Option α}
    (hcanonical : ∀ a, (encode a).canonicalize = encode a)
    (hdecode : ∀ a, decode (encode a) = some a) : Distinguishes encode := by
  intro a b h
  rw [hcanonical, hcanonical] at h
  have hread := hdecode a
  rw [h, hdecode] at hread
  exact (Option.some.inj hread).symm

theorem canonicalize_string (s : String) : (string s).canonicalize = string s := rfl

theorem canonicalize_ofStrings (l : List String) : (ofStrings l).canonicalize = ofStrings l := by
  unfold ofStrings
  rw [canonicalize, canonicalizeItems_eq_map, List.map_map]
  rfl

theorem canonicalize_ofStringMap (m : StringMap) :
    (ofStringMap m).canonicalize = ofStringMap m := by
  have hascending : (m.entries.map fun e => (e.1, string e.2)).Pairwise fun a b => a.1 < b.1 :=
    List.pairwise_map.2 m.sorted
  unfold ofStringMap
  rw [canonicalize, canonicalizeFields_eq_map, List.map_map]
  exact congrArg object (sortFields_eq_self hascending)

theorem canonicalize_ofInt {i : Int} (ge : -2 ^ 63 ≤ i) (lt : i < 2 ^ 64) :
    (ofInt i).canonicalize = ofInt i := by
  rw [ofInt_eq ge lt]
  rfl

theorem canonicalize_ofInt32 (n : Int32) : (ofInt32 n).canonicalize = ofInt32 n :=
  canonicalize_ofInt (by have := n.le_toInt; omega) (by have := n.toInt_lt; omega)

theorem canonicalize_ofInt64 (n : Int64) : (ofInt64 n).canonicalize = ofInt64 n :=
  canonicalize_ofInt (by have := n.le_toInt; omega) (by have := n.toInt_lt; omega)

theorem distinguishes_string : Distinguishes string :=
  distinguishes_of_decode canonicalize_string toString?_string

theorem distinguishes_ofStrings : Distinguishes ofStrings :=
  distinguishes_of_decode canonicalize_ofStrings toStrings?_ofStrings

theorem distinguishes_ofStringMap : Distinguishes ofStringMap :=
  distinguishes_of_decode canonicalize_ofStringMap toStringMap?_ofStringMap

theorem distinguishes_ofInt32 : Distinguishes ofInt32 :=
  distinguishes_of_decode canonicalize_ofInt32 toInt32?_ofInt32

theorem distinguishes_ofInt64 : Distinguishes ofInt64 :=
  distinguishes_of_decode canonicalize_ofInt64 toInt64?_ofInt64

/-- Lists are told apart where their elements are. -/
theorem Distinguishes.list (h : Distinguishes encode) :
    Distinguishes fun l : List α => array (l.map encode) := by
  intro a b heq
  rw [canonicalize, canonicalize, canonicalizeItems_eq_map, canonicalizeItems_eq_map,
    List.map_map, List.map_map, array.injEq] at heq
  exact List.map_injective_iff.2 (fun v w => h v w) heq

/-! ### Fields -/

/-- The value of a field that has to be there. -/
theorem Distinguishes.eq_of_field (h : Distinguishes encode) {a b : α}
    (heq : (some (encode a)).map canonicalize = (some (encode b)).map canonicalize) : a = b :=
  h a b (Option.some.inj heq)

/-- The value of a field that is left out where there is none. -/
theorem Distinguishes.eq_of_optional (h : Distinguishes encode) {a b : Option α}
    (heq : (a.map encode).map canonicalize = (b.map encode).map canonicalize) : a = b := by
  rw [Option.map_map, Option.map_map] at heq
  exact Option.map_injective (fun v w => h v w) heq

/-- The value of a field that is left out for one value only. -/
theorem Distinguishes.eq_of_omitted (h : Distinguishes encode) {p : α → Prop} [DecidablePred p]
    (hp : ∀ a b, p a → p b → a = b) {a b : α}
    (heq : (if p a then none else some (encode a)).map canonicalize =
      (if p b then none else some (encode b)).map canonicalize) : a = b := by
  by_cases ha : p a
  · by_cases hb : p b
    · exact hp a b ha hb
    · rw [if_pos ha, if_neg hb] at heq
      cases heq
  · by_cases hb : p b
    · rw [if_neg ha, if_pos hb] at heq
      cases heq
    · rw [if_neg ha, if_neg hb] at heq
      exact h.eq_of_field heq

end Json

open Json

/-! ### Templates -/

theorem StringMap.eq_of_isEmpty (m m' : StringMap) (h : m.isEmpty = true)
    (h' : m'.isEmpty = true) : m = m' := by
  obtain ⟨entries, sorted⟩ := m
  obtain ⟨entries', sorted'⟩ := m'
  obtain rfl : entries = [] := List.isEmpty_iff.1 h
  obtain rfl : entries' = [] := List.isEmpty_iff.1 h'
  rfl

theorem JobTemplate.distinguishes_encode : Distinguishes JobTemplate.encode := by
  intro a b h
  have himage : a.image = b.image := by
    refine distinguishes_string.eq_of_field ?_
    simpa [lookup?_append, stringField] using lookup?_of_canonicalize_eq h "image"
  have hcommand : a.command = b.command := by
    refine distinguishes_ofStrings.eq_of_omitted (p := (· = []))
      (fun _ _ ha hb => ha.trans hb.symm) ?_
    simpa [lookup?_append, stringField] using lookup?_of_canonicalize_eq h "command"
  have hargs : a.args = b.args := by
    refine distinguishes_ofStrings.eq_of_omitted (p := (· = []))
      (fun _ _ ha hb => ha.trans hb.symm) ?_
    simpa [lookup?_append, stringField] using lookup?_of_canonicalize_eq h "args"
  have henv : a.env = b.env := by
    refine distinguishes_ofStringMap.eq_of_omitted StringMap.eq_of_isEmpty ?_
    simpa [lookup?_append, stringField] using lookup?_of_canonicalize_eq h "env"
  have hlimit : a.backoffLimit = b.backoffLimit := by
    refine distinguishes_ofInt32.eq_of_optional ?_
    simpa [lookup?_append, stringField] using lookup?_of_canonicalize_eq h "backoffLimit"
  have hdeadline : a.activeDeadlineSeconds = b.activeDeadlineSeconds := by
    refine distinguishes_ofInt64.eq_of_optional ?_
    simpa [lookup?_append, stringField] using lookup?_of_canonicalize_eq h "activeDeadlineSeconds"
  cases a
  cases b
  simp only at himage hcommand hargs henv hlimit hdeadline
  rw [himage, hcommand, hargs, henv, hlimit, hdeadline]

theorem Application.distinguishes_encode : Distinguishes Application.encode := by
  intro a b h
  have hname : a.name = b.name := by
    refine distinguishes_string.eq_of_field ?_
    simpa [lookup?_append, stringField] using lookup?_of_canonicalize_eq h "name"
  have hprovision : a.provision = b.provision := by
    refine JobTemplate.distinguishes_encode.eq_of_field ?_
    simpa [lookup?_append, stringField] using lookup?_of_canonicalize_eq h "provision"
  have hteardown : a.teardown = b.teardown := by
    refine JobTemplate.distinguishes_encode.eq_of_optional ?_
    simpa [lookup?_append, stringField] using lookup?_of_canonicalize_eq h "teardown"
  cases a
  cases b
  simp only at hname hprovision hteardown
  rw [hname, hprovision, hteardown]

theorem Template.distinguishes_encode : Distinguishes Template.encode := by
  intro a b h
  have happlications : a.applications = b.applications :=
    Application.distinguishes_encode.list.eq_of_field
      (lookup?_of_canonicalize_eq h "applications")
  cases a
  cases b
  simp only at happlications
  rw [happlications]

/-- Distinct templates have distinct canonical texts. -/
theorem Template.canonicalText_injective :
    Function.Injective fun t : Template => t.encode.canonicalText := fun a b h =>
  Template.distinguishes_encode a b (compact_injective h)

/-! ### Bytes -/

/-- The bytes of a byte array in order. -/
theorem toList_eq_data_toList (bytes : ByteArray) : bytes.toList = bytes.data.toList := by
  have hloop (i : Nat) (before : List UInt8) :
      ByteArray.toList.loop bytes i before = before.reverse ++ bytes.data.toList.drop i := by
    induction i, before using ByteArray.toList.loop.induct bytes with
    | case1 i before hlt ih =>
      have hi : i < bytes.data.toList.length := by simpa using hlt
      have hget : bytes.get! i = bytes.data.toList[i] := by
        rw [Array.getElem_toList]
        exact getElem!_pos bytes.data i (by simpa using hlt)
      rw [ByteArray.toList.loop, if_pos hlt, ih, List.drop_eq_getElem_cons hi, hget]
      simp
    | case2 i before hge =>
      have hi : bytes.data.toList.length ≤ i := by simpa using hge
      rw [ByteArray.toList.loop, if_neg hge, List.drop_eq_nil_of_le hi, List.append_nil]
  unfold ByteArray.toList
  rw [hloop]
  rfl

/-- Distinct texts are distinct bytes. -/
theorem utf8_injective : Function.Injective fun s : String => s.toUTF8.toList := by
  intro s t h
  have hdata : s.toUTF8.data.toList = t.toUTF8.data.toList := by
    rw [← toList_eq_data_toList, ← toList_eq_data_toList]
    exact h
  have hbytes : s.toUTF8 = t.toUTF8 := ByteArray.ext (Array.toList_inj.1 hdata)
  exact String.toByteArray_inj.1 hbytes

theorem hexDigit_inj {m n : Nat} (hm : m < 16) (hn : n < 16) (h : hexDigit m = hexDigit n) :
    m = n := by
  have hread := Literal.hexValue?_hexDigit hm
  rw [h, Literal.hexValue?_hexDigit hn] at hread
  exact (Option.some.inj hread).symm

/-- Distinct bytes are distinct in hexadecimal. -/
theorem hexText_injective : Function.Injective hexText := by
  intro a b h
  unfold hexText at h
  replace h := String.ofList_injective h
  induction a generalizing b with
  | nil =>
    cases b with
    | nil => rfl
    | cons y b => cases h
  | cons x a ih =>
    cases b with
    | nil => cases h
    | cons y b =>
      simp only [List.flatMap_cons, List.cons_append, List.nil_append, List.cons.injEq] at h
      obtain ⟨hhigh, hlow, hrest⟩ := h
      have hx := x.toNat_lt
      have hy := y.toNat_lt
      have hhigh' := hexDigit_inj (by omega) (by omega) hhigh
      have hlow' := hexDigit_inj (by omega) (by omega) hlow
      have hbyte : x = y := UInt8.toNat_inj.1 (by omega)
      rw [hbyte, ih hrest]

/-! ### Keys -/

/-- The bytes that are digested for the key of a template. -/
def Template.bytes (t : Template) : List UInt8 := t.encode.canonicalText.toUTF8.toList

theorem Template.bytes_injective : Function.Injective Template.bytes :=
  utf8_injective.comp Template.canonicalText_injective

theorem Template.key_eq (t : Template) :
    t.key = hexText ((Sha256.digest t.bytes).take keyBytes) := rfl

/--
Templates have one canonical text only if they are the same, and distinct ones share a key exactly
when the digests of their texts, which are distinct bytes, start with the same sixteen bytes.
-/
theorem Template.key_eq_iff (a b : Template) :
    (a.encode.canonicalText = b.encode.canonicalText ↔ a = b) ∧
    (a.key = b.key ↔ a = b ∨ (a.bytes ≠ b.bytes ∧
      (Sha256.digest a.bytes).take 16 = (Sha256.digest b.bytes).take 16)) := by
  constructor
  · exact Template.canonicalText_injective.eq_iff
  · rw [Template.key_eq, Template.key_eq, hexText_injective.eq_iff]
    constructor
    · intro h
      by_cases hab : a = b
      · exact .inl hab
      · exact .inr ⟨Template.bytes_injective.ne hab, h⟩
    · rintro (rfl | ⟨-, h⟩)
      · rfl
      · exact h

end WarmPool
