import WarmPool.Cache
import WarmPool.Proofs.Validation
import WarmPool.Reconcile.Settings
import WarmPool.TemplateKey

/-!
# Names that are made

Names are made of two runs of lower-case letters and digits with a hyphen in between, which are DNS
labels unless they are too long (`Label.fault?_hyphenated`). The key of a template is a run of
thirty-two characters (`Template.isRun_key`, `Template.length_key`) and what is drawn is one of
five, so that a template names a cache (`Cache.names_key`), and its key an operation
(`fault?_operationName`).
-/

namespace WarmPool

namespace Label

variable {front back name : String} {c : Char}

theorem fault?_eq_none_iff : fault? name = none ↔ IsLabel name :=
  (fault?_findsFirst name).eq_none_iff.trans isLabel_iff.symm

/-- Lower-case letters and digits, at least one. -/
structure IsRun (s : String) : Prop where
  nonempty : s.toList ≠ []
  chars : ∀ c ∈ s.toList, (c.isLower || c.isDigit) = true

theorem isRun_of_length_pos (h : 0 < name.length)
    (hchars : ∀ c ∈ name.toList, (c.isLower || c.isDigit) = true) : IsRun name := by
  refine ⟨fun hnil => ?_, hchars⟩
  rw [← String.length_toList, hnil] at h
  exact Nat.lt_irrefl 0 h

theorem isLabelChar_of_run (h : (c.isLower || c.isDigit) = true) : isLabelChar c = true := by
  unfold isLabelChar
  rw [h, Bool.true_or]

theorem ne_hyphen_of_run (h : (c.isLower || c.isDigit) = true) : c ≠ '-' := by
  rintro rfl
  exact absurd h (by decide)

/-- Two runs with a hyphen in between are a label if there are not too many characters. -/
theorem fault?_hyphenated (hfront : IsRun front) (hback : IsRun back)
    (hlength : front.length + back.length < maxLength) :
    fault? (front ++ "-" ++ back) = none := by
  have hlist : (front ++ "-" ++ back).toList = front.toList ++ '-' :: back.toList := by
    simp [String.toList_append]
  have hchars : ∀ c ∈ (front ++ "-" ++ back).toList, isLabelChar c = true := by
    intro c hc
    rw [hlist, List.mem_append, List.mem_cons] at hc
    rcases hc with hc | rfl | hc
    · exact isLabelChar_of_run (hfront.chars c hc)
    · decide
    · exact isLabelChar_of_run (hback.chars c hc)
  refine fault?_eq_none_iff.2 ⟨?_, ?_, hchars, ?_, ?_⟩
  · intro hempty
    rw [hempty] at hlist
    exact absurd hlist (by simp)
  · rw [utf8ByteSize_eq_length hchars, String.length_append, String.length_append]
    have hhyphen : "-".length = 1 := by decide
    omega
  · -- The first character is that of the front.
    rw [hlist]
    obtain ⟨c, cs, hcons⟩ := List.exists_cons_of_ne_nil hfront.nonempty
    rw [hcons, List.cons_append, List.head?_cons]
    have hc := ne_hyphen_of_run (hfront.chars c (hcons ▸ List.mem_cons_self))
    exact fun hhead => hc (Option.some.inj hhead)
  · -- The last character is that of the back.
    rw [hlist]
    obtain ⟨cs, c, hconcat⟩ := List.eq_nil_or_concat back.toList |>.resolve_left hback.nonempty
    rw [List.concat_eq_append] at hconcat
    have hlast : (front.toList ++ '-' :: back.toList).getLast? = some c := by
      rw [hconcat, ← List.cons_append, ← List.append_assoc, List.getLast?_append]
      rfl
    have hc := ne_hyphen_of_run (hback.chars c (hconcat ▸ (by simp)))
    rw [hlast]
    exact fun hhead => hc (Option.some.inj hhead)

end Label

/-! ### Keys -/

theorem Json.run_hexDigit {n : Nat} (h : n < 16) :
    ((hexDigit n).isLower || (hexDigit n).isDigit) = true := by
  have hall : ∀ n : Fin 16, ((hexDigit n).isLower || (hexDigit n).isDigit) = true := by decide
  exact hall ⟨n, h⟩

theorem toList_hexText_cons (b : UInt8) (bytes : List UInt8) :
    (hexText (b :: bytes)).toList = Json.hexDigit (b.toNat / 16) ::
      Json.hexDigit (b.toNat % 16) :: (hexText bytes).toList := by
  unfold hexText
  rw [String.toList_ofList, String.toList_ofList, List.flatMap_cons]
  rfl

theorem length_hexText (bytes : List UInt8) : (hexText bytes).length = 2 * bytes.length := by
  induction bytes with
  | nil => rfl
  | cons b bytes ih =>
    rw [← String.length_toList] at ih ⊢
    rw [toList_hexText_cons, List.length_cons, List.length_cons, List.length_cons, ih]
    omega

theorem run_hexText (bytes : List UInt8) :
    ∀ c ∈ (hexText bytes).toList, (c.isLower || c.isDigit) = true := by
  induction bytes with
  | nil => exact fun c hc => nomatch hc
  | cons b bytes ih =>
    intro c hc
    have hb := b.toNat_lt
    rw [toList_hexText_cons, List.mem_cons, List.mem_cons] at hc
    rcases hc with rfl | rfl | hc
    · exact Json.run_hexDigit (by omega)
    · exact Json.run_hexDigit (by omega)
    · exact ih c hc

theorem Sha256.length_bigEndian (count n : Nat) : (bigEndian count n).length = count := by
  induction count with
  | zero => rfl
  | succ count ih => exact congrArg (· + 1) ih

theorem Sha256.length_digest (message : List UInt8) : (digest message).length = 32 := by
  unfold digest
  simp [length_bigEndian]

theorem length_textKey (text : String) : (textKey text).length = 32 := by
  unfold textKey
  rw [length_hexText, List.length_take, Sha256.length_digest]
  rfl

namespace Template

variable (t : Template)

theorem length_key : t.key.length = 32 := length_textKey _

theorem isRun_key : Label.IsRun t.key := by
  refine Label.isRun_of_length_pos ?_ (run_hexText _)
  rw [t.length_key]
  decide

end Template

/-! ### Caches and operations -/

namespace Cache

/-- A key completes the name of a cache. -/
def Names (key : String) : Prop := Label.fault? (nameForKey key) = none

instance (key : String) : Decidable (Names key) :=
  inferInstanceAs (Decidable (Label.fault? (nameForKey key) = none))

theorem names_key (t : Template) : Names t.key := by
  have hcache : Label.IsRun "cache" := ⟨by decide, List.all_eq_true.1 (by decide)⟩
  have hstart : String.ofList nameStart = "cache" ++ "-" := by decide
  unfold Names nameForKey
  rw [hstart]
  refine Label.fault?_hyphenated hcache t.isRun_key ?_
  rw [t.length_key]
  decide

/-- A key that completes the name of a cache is short enough for a label. -/
theorem Names.utf8ByteSize_le {key : String} (h : Names key) :
    key.utf8ByteSize ≤ Label.maxLength := by
  obtain ⟨-, hlength, -⟩ := Label.fault?_eq_none_iff.1 h
  unfold nameForKey at hlength
  rw [String.utf8ByteSize_append] at hlength
  omega

end Cache

namespace Reconcile

theorem run_alphabet : ∀ c ∈ Suffix.alphabet.toList, (c.isLower || c.isDigit) = true :=
  List.all_eq_true.1 (by decide)

theorem Occasion.length_suffixText (o : Occasion) : o.suffixText.length = suffixLength := by
  unfold suffixText Suffix.text
  rw [← String.length_toList, String.toList_ofList, List.length_map, Vector.length_toList]

theorem Occasion.isRun_suffixText (o : Occasion) : Label.IsRun o.suffixText := by
  refine Label.isRun_of_length_pos ?_ fun c hc => ?_
  · rw [o.length_suffixText]
    decide
  · unfold suffixText Suffix.text at hc
    rw [String.toList_ofList] at hc
    obtain ⟨d, -, rfl⟩ := List.mem_map.1 hc
    exact run_alphabet _ (Vector.mem_toList_iff.2 (Vector.getElem_mem d.isLt))

/-- The name of an operation is a label, whatever is drawn. -/
theorem fault?_operationName (t : Template) (o : Occasion) :
    Label.fault? (t.key ++ "-" ++ o.suffixText) = none := by
  refine Label.fault?_hyphenated t.isRun_key o.isRun_suffixText ?_
  rw [t.length_key, o.length_suffixText]
  decide

end Reconcile

end WarmPool
