import Mathlib.Data.List.Nodup
import WarmPool.Json.Decode
import WarmPool.Json.MergePatch

/-!
# Fields of JSON objects

What looking up a key finds after fields were put together, set, removed or merged
(`lookup?_mergeFields`), that setting a field leaves no key twice (`nodup_setField`), and how plain
values, lists and maps of strings read back as what was written (`toInt64?_ofInt64`, `toList?_map`,
`toStringMap?_ofStringMap`).
-/

namespace WarmPool

namespace Json

variable {α β : Type}

/-! ### Looking up -/

@[simp] theorem lookup?_nil (key : String) : lookup? key [] = none := rfl

@[simp] theorem lookup?_cons (key k : String) (v : Json) (rest : List (String × Json)) :
    lookup? key ((k, v) :: rest) = if k = key then some v else lookup? key rest := rfl

theorem lookup?_append (key : String) (a b : List (String × Json)) :
    lookup? key (a ++ b) = (lookup? key a).or (lookup? key b) := by
  induction a with
  | nil => rfl
  | cons f a ih =>
    obtain ⟨k, v⟩ := f
    rw [List.cons_append, lookup?_cons, lookup?_cons, ih]
    split <;> rfl

@[simp] theorem lookup?_optionalField (key k : String) (encode : α → Json) (o : Option α) :
    lookup? key (optionalField k encode o) = if k = key then o.map encode else none := by
  cases o with
  | none => simp [optionalField]
  | some a => simp [optionalField]

/-- A field that is left out when it is empty is found when it is not. -/
@[simp] theorem lookup?_ite (key k : String) (p : Prop) [Decidable p] (v : Json) :
    lookup? key (if p then [] else [(k, v)]) =
      if k = key then (if p then none else some v) else none := by
  split <;> simp

/-- A key that no field has is not found. -/
theorem lookup?_eq_none {key : String} {fields : List (String × Json)}
    (h : key ∉ fields.map Prod.fst) : lookup? key fields = none := by
  induction fields with
  | nil => rfl
  | cons f fields ih =>
    obtain ⟨k, v⟩ := f
    simp only [List.map_cons, List.mem_cons, not_or] at h
    rw [lookup?_cons, if_neg (Ne.symm h.1), ih h.2]

theorem lookup?_setField (key k : String) (v : Json) (fields : List (String × Json)) :
    lookup? key (setField k v fields) = if k = key then some v else lookup? key fields := by
  induction fields with
  | nil => rfl
  | cons f fields ih =>
    obtain ⟨l, w⟩ := f
    rw [setField]
    by_cases hl : l = k
    · subst hl
      simp only [↓reduceIte, lookup?_cons]
      split <;> rfl
    · simp only [hl, ↓reduceIte, lookup?_cons, ih]
      by_cases hk : k = key
      · subst hk
        simp [hl]
      · simp [hk]

theorem lookup?_removeField (key k : String) (fields : List (String × Json)) :
    lookup? key (removeField k fields) = if k = key then none else lookup? key fields := by
  unfold removeField
  induction fields with
  | nil => simp
  | cons f fields ih =>
    obtain ⟨l, w⟩ := f
    by_cases hl : l = k
    · subst hl
      simp only [ne_eq, not_true_eq_false, decide_false, Bool.false_eq_true, not_false_eq_true,
        List.filter_cons_of_neg, ih, lookup?_cons]
      split <;> rfl
    · simp only [ne_eq, hl, not_false_eq_true, decide_true, List.filter_cons_of_pos, lookup?_cons,
        ih]
      by_cases hk : k = key
      · subst hk
        simp [hl]
      · simp [hk]

/-! ### Setting fields -/

theorem map_fst_setField (key : String) (v : Json) (fields : List (String × Json)) :
    (setField key v fields).map Prod.fst =
      if key ∈ fields.map Prod.fst then fields.map Prod.fst else fields.map Prod.fst ++ [key] := by
  induction fields with
  | nil => rfl
  | cons f fields ih =>
    obtain ⟨k, w⟩ := f
    rw [setField]
    by_cases hk : k = key
    · simp [hk]
    · have hk' : ¬ key = k := fun heq => hk heq.symm
      simp only [hk, ↓reduceIte, List.map_cons, ih, List.mem_cons, hk', false_or]
      split
      · rfl
      · rfl

/-- A new key goes to the end. -/
theorem setField_of_new {key : String} {v : Json} {fields : List (String × Json)}
    (h : key ∉ fields.map Prod.fst) : setField key v fields = fields ++ [(key, v)] := by
  induction fields with
  | nil => rfl
  | cons f fields ih =>
    obtain ⟨k, w⟩ := f
    simp only [List.map_cons, List.mem_cons, not_or] at h
    rw [setField, if_neg (Ne.symm h.1), ih h.2, List.cons_append]

/-- Setting a field leaves no key twice. -/
theorem nodup_setField {key : String} {v : Json} {fields : List (String × Json)}
    (h : (fields.map Prod.fst).Nodup) : ((setField key v fields).map Prod.fst).Nodup := by
  rw [map_fst_setField]
  split
  · exact h
  · rename_i hnew
    rw [List.nodup_append]
    refine ⟨h, List.nodup_singleton key, fun k hk l hl => ?_⟩
    rw [List.mem_singleton] at hl
    rintro rfl
    exact hnew (hl ▸ hk)

/-! ### Merging -/

/-- What a key holds after a patch laid this value over what it held. -/
def patched (before : Option Json) : (patch : Json) → Option Json
  | .null => none
  | v => some (merge (before.getD .null) v)

theorem mergeFields_cons (target rest : List (String × Json)) (k : String) (v : Json) :
    ∃ target', mergeFields target ((k, v) :: rest) = mergeFields target' rest ∧
      ∀ key, lookup? key target' =
        if k = key then patched (lookup? key target) v else lookup? key target := by
  cases v with
  | null =>
    refine ⟨removeField k target, rfl, fun key => ?_⟩
    rw [lookup?_removeField]
    rfl
  | _ =>
    refine ⟨setField k _ target, rfl, fun key => ?_⟩
    rw [lookup?_setField]
    split
    · rename_i hk
      rw [hk]
      rfl
    · rfl

/--
What a key holds after a merge: its value as before if the patch does not name it, and else what
the value in the patch makes of the one before.
-/
theorem lookup?_mergeFields (key : String) {patch : List (String × Json)}
    (h : (patch.map Prod.fst).Nodup) (target : List (String × Json)) :
    lookup? key (mergeFields target patch) =
      match lookup? key patch with
      | none => lookup? key target
      | some v => patched (lookup? key target) v := by
  induction patch generalizing target with
  | nil => rfl
  | cons f patch ih =>
    obtain ⟨k, v⟩ := f
    rw [List.map_cons, List.nodup_cons] at h
    obtain ⟨target', hmerge, hlookup⟩ := mergeFields_cons target patch k v
    rw [hmerge, ih h.2, lookup?_cons, hlookup]
    by_cases hk : k = key
    · -- The patch names each key once, so the rest of it leaves this one alone.
      have hnone : lookup? key patch = none := lookup?_eq_none (hk ▸ h.1)
      rw [hnone, if_pos hk, if_pos hk]
    · rw [if_neg hk, if_neg hk]

/-! ### Reading fields -/

/-- An optional field that is there reads back, and one that is not is none. -/
theorem optional?_eq {decode : Json → Option β} {key : String} {fields : List (String × Json)}
    {encode : α → Json} {o : Option α} {f : α → β} (h : lookup? key fields = o.map encode)
    (hdecode : ∀ a ∈ o, decode (encode a) = some (f a)) (hnull : ∀ a ∈ o, encode a ≠ .null) :
    optional? decode key fields = some (o.map f) := by
  unfold optional?
  cases o with
  | none =>
    rw [h]
    rfl
  | some a =>
    have hd := hdecode a rfl
    have hn := hnull a rfl
    rw [h, Option.map_some]
    cases hv : encode a with
    | null => exact absurd hv hn
    | _ =>
      rw [hv] at hd
      simp only [hd, Option.map_some]

/-- An optional field whose values read back as they were reads back as it was. -/
theorem optional?_eq_self {decode : Json → Option α} {key : String} {fields : List (String × Json)}
    {encode : α → Json} {o : Option α} (h : lookup? key fields = o.map encode)
    (hdecode : ∀ a ∈ o, decode (encode a) = some a) (hnull : ∀ a ∈ o, encode a ≠ .null) :
    optional? decode key fields = some o := by
  have hread := optional?_eq (f := id) h hdecode hnull
  rwa [Option.map_id, id] at hread

theorem required?_eq {decode : Json → Option α} {key : String} {fields : List (String × Json)}
    {v : Json} {a : α} (h : lookup? key fields = some v) (hdecode : decode v = some a) :
    required? decode key fields = some a := by
  unfold required?
  rw [h, Option.bind_some, hdecode]

theorem defaulted?_eq {decode : Json → Option α} {key : String} {fields : List (String × Json)}
    {default a : α} {v : Json} (h : lookup? key fields = some v) (hdecode : decode v = some a) :
    defaulted? default decode key fields = some a := by
  unfold defaulted?
  rw [h]
  exact hdecode

theorem defaulted?_of_none {decode : Json → Option α} {key : String}
    {fields : List (String × Json)} {default : α} (h : lookup? key fields = none) :
    defaulted? default decode key fields = some default := by
  unfold defaulted?
  rw [h]

/-- A field left out when it is the default reads back. -/
theorem defaulted?_eq_of_ite {decode : Json → Option α} {key : String}
    {fields : List (String × Json)} {default a : α} {p : Prop} [Decidable p] {v : Json}
    (h : lookup? key fields = if p then none else some v) (hdecode : decode v = some a)
    (hdefault : p → default = a) : defaulted? default decode key fields = some a := by
  by_cases hp : p
  · rw [if_pos hp] at h
    rw [defaulted?_of_none h, hdefault hp]
  · rw [if_neg hp] at h
    exact defaulted?_eq h hdecode

/-! ### Plain values -/

/-- An integer of 64 bits is a number. -/
theorem ofInt_eq {i : Int} (h1 : -2 ^ (63 : Nat) ≤ i) (h2 : i < 2 ^ (64 : Nat)) :
    ofInt i = .number (.integer i h1 h2) := by
  unfold ofInt Number.ofInt?
  rw [dif_pos ⟨h1, h2⟩]

theorem toInt?_ofInt {least greatest i : Int} (h1 : -2 ^ (63 : Nat) ≤ i) (h2 : i < 2 ^ (64 : Nat))
    (hleast : least ≤ i) (hgreatest : i ≤ greatest) : toInt? least greatest (ofInt i) = some i := by
  rw [ofInt_eq h1 h2, toInt?, if_pos ⟨hleast, hgreatest⟩]

@[simp] theorem toInt64?_ofInt64 (n : Int64) : toInt64? (ofInt64 n) = some n := by
  have h1 := n.le_toInt
  have h2 := n.toInt_lt
  unfold toInt64? ofInt64
  rw [toInt?_ofInt (by omega) (by omega) (by omega) (by omega), Option.map_some, Int64.ofInt_toInt]

@[simp] theorem toInt32?_ofInt32 (n : Int32) : toInt32? (ofInt32 n) = some n := by
  have h1 := n.le_toInt
  have h2 := n.toInt_lt
  unfold toInt32? ofInt32
  rw [toInt?_ofInt (by omega) (by omega) (by omega) (by omega), Option.map_some, Int32.ofInt_toInt]

@[simp] theorem toUInt32?_ofUInt32 (n : UInt32) : toUInt32? (ofUInt32 n) = some n := by
  have h := n.toNat_lt
  unfold toUInt32? ofUInt32 ofNat
  rw [toInt?_ofInt (by omega) (by omega) (by omega) (by omega), Option.map_some, Int.toNat_natCast,
    UInt32.ofNat_toNat]

theorem ofInt64_eq (n : Int64) : ∃ x, ofInt64 n = .number x :=
  ⟨_, ofInt_eq (by have := n.le_toInt; omega) (by have := n.toInt_lt; omega)⟩

theorem ofInt32_ne_null (n : Int32) : ofInt32 n ≠ .null := by
  unfold ofInt32
  rw [ofInt_eq (by have := n.le_toInt; omega) (by have := n.toInt_lt; omega)]
  exact Json.noConfusion

theorem ofUInt32_ne_null (n : UInt32) : ofUInt32 n ≠ .null := by
  unfold ofUInt32 ofNat
  rw [ofInt_eq (by omega) (by have := n.toNat_lt; omega)]
  exact Json.noConfusion

theorem ofInt64_ne_null (n : Int64) : ofInt64 n ≠ .null := by
  obtain ⟨x, hx⟩ := ofInt64_eq n
  rw [hx]
  exact Json.noConfusion

/-! ### Lists and maps -/

/-- Values that were each written read back in order. -/
theorem mapM_map_eq_some {γ : Type} {encode : α → β} {decode : β → Option γ} {f : α → γ}
    {l : List α} (h : ∀ a ∈ l, decode (encode a) = some (f a)) :
    (l.map encode).mapM decode = some (l.map f) := by
  induction l with
  | nil => rfl
  | cons a l ih =>
    rw [List.map_cons, List.mapM_cons, h a (by simp),
      ih fun b hb => h b (List.mem_cons_of_mem _ hb)]
    rfl

theorem toString?_string (s : String) : toString? (.string s) = some s := rfl

theorem string_ne_null (s : String) : Json.string s ≠ .null := Json.noConfusion

/-- An optional text reads back. -/
theorem optional?_text {key : String} {fields : List (String × Json)} {text : Option String}
    (h : lookup? key fields = text.map .string) : optional? toString? key fields = some text :=
  optional?_eq_self h (fun s _ => toString?_string s) fun s _ => string_ne_null s

/-- An optional integer of 64 bits reads back. -/
theorem optional?_int64 {key : String} {fields : List (String × Json)} {n : Option Int64}
    (h : lookup? key fields = n.map ofInt64) : optional? toInt64? key fields = some n :=
  optional?_eq_self h (fun i _ => toInt64?_ofInt64 i) fun i _ => ofInt64_ne_null i

theorem toList?_map {encode : α → Json} {decode : Json → Option β} {f : α → β} {l : List α}
    (h : ∀ a ∈ l, decode (encode a) = some (f a)) :
    toList? decode (.array (l.map encode)) = some (l.map f) := mapM_map_eq_some h

@[simp] theorem toStrings?_ofStrings (l : List String) : toStrings? (ofStrings l) = some l := by
  have h : toList? toString? (.array (l.map .string)) = some (l.map id) :=
    toList?_map fun _ _ => rfl
  rw [List.map_id] at h
  exact h

end Json

namespace StringMap

/-- An entry whose key comes after all others goes to the end. -/
theorem insertEntry_of_lt {key value : String} {entries : List (String × String)}
    (h : ∀ e ∈ entries, e.1 < key) : insertEntry key value entries = entries ++ [(key, value)] := by
  induction entries with
  | nil => rfl
  | cons e entries ih =>
    obtain ⟨k, v⟩ := e
    rw [insertEntry, if_pos (h (k, v) (by simp)), ih fun e he => h e (List.mem_cons_of_mem _ he)]
    rfl

/-- Entries in ascending order are put one behind the other. -/
theorem entries_foldl_insert (l : List (String × String)) (m : StringMap)
    (hl : l.Pairwise fun a b => a.1 < b.1) (hm : ∀ e ∈ m.entries, ∀ e' ∈ l, e.1 < e'.1) :
    (l.foldl (fun m e => m.insert e.1 e.2) m).entries = m.entries ++ l := by
  induction l generalizing m with
  | nil => rw [List.foldl_nil, List.append_nil]
  | cons e l ih =>
    obtain ⟨hhead, htail⟩ := List.pairwise_cons.1 hl
    have hinsert : (m.insert e.1 e.2).entries = m.entries ++ [e] :=
      insertEntry_of_lt fun e' he' => hm e' he' e (by simp)
    rw [List.foldl_cons, ih _ htail, hinsert, List.append_assoc, List.singleton_append]
    intro a ha b hb
    rw [hinsert, List.mem_append, List.mem_singleton] at ha
    rcases ha with ha | rfl
    · exact hm a ha b (List.mem_cons_of_mem _ hb)
    · exact hhead b hb

/-- A map is made again from its entries. -/
@[simp] theorem ofList_entries (m : StringMap) : ofList m.entries = m := by
  have h := entries_foldl_insert m.entries empty m.sorted (by simp [empty])
  cases m with
  | mk entries sorted => exact StringMap.mk.injEq .. ▸ h

end StringMap

namespace Json

@[simp] theorem toStringMap?_ofStringMap (m : StringMap) :
    toStringMap? (ofStringMap m) = some m := by
  have h : (m.entries.map fun e => (e.1, Json.string e.2)).mapM
      (fun f => (toString? f.2).map fun s => (f.1, s)) = some (m.entries.map id) :=
    mapM_map_eq_some fun _ _ => rfl
  unfold ofStringMap toStringMap?
  rw [List.map_id] at h
  simp only [h, Option.map_some, StringMap.ofList_entries]

end Json

end WarmPool
