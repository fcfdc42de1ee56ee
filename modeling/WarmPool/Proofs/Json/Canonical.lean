import Mathlib.Data.List.Forall2
import Mathlib.Data.List.Perm.Basic
import WarmPool.Json.Canonical
import WarmPool.Proofs.Json.Field

/-!
# The canonical form

The canonical form is a normal form: it is canonical itself (`Json.canonicalize_idem`), has no key
twice where the value has none (`Json.WellFormed.canonicalize`), and is shared by exactly the values
that are alike, which differ in the order of fields and the spelling of numbers only
(`Json.canonicalize_eq_iff`). All of it rests on sorting: fields with distinct keys have one order.
-/

namespace WarmPool

/-! ### Numbers -/

/-- A normalized number is left as it is. -/
theorem Number.normalize_idem (n : Number) : n.normalize.normalize = n.normalize := by
  cases n with
  | integer i ge lt => rfl
  | float x =>
    by_cases hwhole : x.isIntegral ∧ x.magnitude.1 ≤ 2 ^ 63 * x.magnitude.2
    · have hn : (Number.float x).normalize =
          (Number.ofInt? (min x.truncate (2 ^ 63 - 1))).getD (.float x) := if_pos hwhole
      unfold Number.ofInt? at hn
      by_cases hrange : -2 ^ 63 ≤ min x.truncate (2 ^ 63 - 1) ∧
          min x.truncate (2 ^ 63 - 1) < 2 ^ 64
      · rw [dif_pos hrange, Option.getD_some] at hn
        rw [hn]
        rfl
      · rw [dif_neg hrange, Option.getD_none] at hn
        rw [hn, hn]
    · have hn : (Number.float x).normalize = .float x := if_neg hwhole
      rw [hn, hn]

namespace Json

/-! ### Sorting fields -/

section Sorting

variable {field : String × Json} {fields fields' : List (String × Json)}

theorem insertSorted_perm (field : String × Json) (fields : List (String × Json)) :
    (insertSorted field fields).Perm (field :: fields) := by
  induction fields with
  | nil => exact .refl _
  | cons f fields ih =>
    rw [insertSorted]
    split
    · exact (ih.cons f).trans (.swap field f fields)
    · exact .refl _

theorem sortFields_perm (fields : List (String × Json)) : (sortFields fields).Perm fields := by
  induction fields with
  | nil => exact .refl _
  | cons f fields ih => exact (insertSorted_perm f (sortFields fields)).trans (ih.cons f)

/-- A field with a key of its own goes where the keys stay in ascending order. -/
theorem insertSorted_ascending (hfields : fields.Pairwise fun a b => a.1 < b.1)
    (hfield : ∀ f ∈ fields, f.1 ≠ field.1) :
    (insertSorted field fields).Pairwise fun a b => a.1 < b.1 := by
  induction fields with
  | nil => simp [insertSorted]
  | cons f fields ih =>
    obtain ⟨hhead, htail⟩ := List.pairwise_cons.1 hfields
    rw [insertSorted]
    split
    · rename_i hlt
      refine List.pairwise_cons.2
        ⟨fun g hg => ?_, ih htail fun g hg => hfield g (List.mem_cons_of_mem _ hg)⟩
      rcases List.mem_cons.1 ((insertSorted_perm field fields).mem_iff.1 hg) with rfl | hg
      · exact hlt
      · exact hhead g hg
    · rename_i hnot
      have hlt : field.1 < f.1 :=
        Std.lt_of_le_of_ne (Std.not_lt.1 hnot) (hfield f List.mem_cons_self).symm
      refine List.pairwise_cons.2 ⟨fun g hg => ?_, hfields⟩
      rcases List.mem_cons.1 hg with rfl | hg
      · exact hlt
      · exact Std.lt_trans hlt (hhead g hg)

/-- Fields with distinct keys are sorted into ascending order. -/
theorem sortFields_ascending (h : (fields.map Prod.fst).Nodup) :
    (sortFields fields).Pairwise fun a b => a.1 < b.1 := by
  induction fields with
  | nil => exact .nil
  | cons f fields ih =>
    rw [List.map_cons, List.nodup_cons] at h
    refine insertSorted_ascending (ih h.2) fun g hg heq => h.1 ?_
    have hmem := List.mem_map_of_mem (f := Prod.fst) ((sortFields_perm fields).mem_iff.1 hg)
    rwa [heq] at hmem

/-- The same fields in ascending order are the same list. -/
theorem eq_of_ascending (hperm : fields.Perm fields')
    (h : fields.Pairwise fun a b => a.1 < b.1) (h' : fields'.Pairwise fun a b => a.1 < b.1) :
    fields = fields' :=
  hperm.eq_of_pairwise (fun _ _ _ _ hab hba => absurd (Std.lt_trans hab hba) Std.lt_irrefl) h h'

/-- The order of fields with distinct keys is of no account. -/
theorem sortFields_eq_of_perm (hperm : fields.Perm fields') (h : (fields.map Prod.fst).Nodup) :
    sortFields fields = sortFields fields' := by
  have h' : (fields'.map Prod.fst).Nodup := (hperm.map Prod.fst).nodup_iff.1 h
  have hsorted := (sortFields_perm fields).trans (hperm.trans (sortFields_perm fields').symm)
  exact eq_of_ascending hsorted (sortFields_ascending h) (sortFields_ascending h')

theorem insertSorted_of_lt (h : ∀ f ∈ fields, field.1 < f.1) :
    insertSorted field fields = field :: fields := by
  cases fields with
  | nil => rfl
  | cons f fields =>
    have hnot : ¬ f.1 < field.1 := fun hlt =>
      absurd (Std.lt_trans hlt (h f List.mem_cons_self)) Std.lt_irrefl
    rw [insertSorted, if_neg hnot]

/-- Fields in ascending order stay as they are. -/
theorem sortFields_eq_self (h : fields.Pairwise fun a b => a.1 < b.1) :
    sortFields fields = fields := by
  induction fields with
  | nil => rfl
  | cons f fields ih =>
    obtain ⟨hhead, htail⟩ := List.pairwise_cons.1 h
    show insertSorted f (sortFields fields) = f :: fields
    rw [ih htail, insertSorted_of_lt hhead]

/-- The first field with a key stays the first one. -/
theorem lookup?_insertSorted (key : String) (field : String × Json)
    (fields : List (String × Json)) :
    lookup? key (insertSorted field fields) = lookup? key (field :: fields) := by
  obtain ⟨k, v⟩ := field
  induction fields with
  | nil => rfl
  | cons f fields ih =>
    obtain ⟨l, w⟩ := f
    rw [insertSorted]
    split
    · rename_i hlt
      have hne : l ≠ k := fun heq => absurd (heq ▸ hlt) Std.lt_irrefl
      rw [lookup?_cons, ih, lookup?_cons, lookup?_cons, lookup?_cons]
      by_cases hk : k = key
      · rw [if_pos hk, if_pos hk, if_neg fun hl => hne (hl.trans hk.symm)]
      · rw [if_neg hk, if_neg hk]
    · rfl

theorem lookup?_sortFields (key : String) (fields : List (String × Json)) :
    lookup? key (sortFields fields) = lookup? key fields := by
  induction fields with
  | nil => rfl
  | cons f fields ih =>
    obtain ⟨k, v⟩ := f
    show lookup? key (insertSorted (k, v) (sortFields fields)) = _
    rw [lookup?_insertSorted, lookup?_cons, lookup?_cons, ih]

end Sorting

/-! ### Canonical fields -/

theorem canonicalizeItems_eq_map (items : List Json) :
    canonicalizeItems items = items.map canonicalize := by
  induction items with
  | nil => rfl
  | cons v items ih => rw [canonicalizeItems, ih, List.map_cons]

theorem canonicalizeFields_eq_map (fields : List (String × Json)) :
    canonicalizeFields fields = fields.map fun f => (f.1, f.2.canonicalize) := by
  induction fields with
  | nil => rfl
  | cons f fields ih => rw [canonicalizeFields, ih, List.map_cons]

theorem map_fst_canonicalizeFields (fields : List (String × Json)) :
    (canonicalizeFields fields).map Prod.fst = fields.map Prod.fst := by
  rw [canonicalizeFields_eq_map, List.map_map]
  rfl

theorem lookup?_canonicalizeFields (key : String) (fields : List (String × Json)) :
    lookup? key (canonicalizeFields fields) = (lookup? key fields).map canonicalize := by
  induction fields with
  | nil => rfl
  | cons f fields ih =>
    obtain ⟨k, v⟩ := f
    rw [canonicalizeFields, lookup?_cons, lookup?_cons, ih]
    split <;> rfl

/-- Objects with one canonical form have values with one canonical form under every key. -/
theorem lookup?_of_canonicalize_eq {fields fields' : List (String × Json)}
    (h : (object fields).canonicalize = (object fields').canonicalize) (key : String) :
    (lookup? key fields).map canonicalize = (lookup? key fields').map canonicalize := by
  rw [canonicalize, canonicalize, object.injEq] at h
  rw [← lookup?_canonicalizeFields, ← lookup?_canonicalizeFields, ← lookup?_sortFields,
    h, lookup?_sortFields]

theorem wellFormedItems_iff {items : List Json} :
    WellFormedItems items ↔ ∀ v ∈ items, v.WellFormed := by
  induction items with
  | nil => simp [WellFormedItems]
  | cons v items ih => rw [WellFormedItems, ih, List.forall_mem_cons]

theorem wellFormedFields_iff {fields : List (String × Json)} :
    WellFormedFields fields ↔ ∀ f ∈ fields, f.2.WellFormed := by
  induction fields with
  | nil => simp [WellFormedFields]
  | cons f fields ih => rw [WellFormedFields, ih, List.forall_mem_cons]

/-! ### The form is canonical -/

mutual

/-- The canonical form has no key twice where the value has none. -/
theorem WellFormed.canonicalize {v : Json} (h : v.WellFormed) : v.canonicalize.WellFormed := by
  match v with
  | .null => trivial
  | .bool _ => trivial
  | .number _ => trivial
  | .string _ => trivial
  | .array items =>
    rw [WellFormed] at h
    rw [Json.canonicalize, WellFormed, wellFormedItems_iff]
    exact wellFormed_canonicalizeItems h
  | .object fields =>
    rw [WellFormed] at h
    have hperm := sortFields_perm (canonicalizeFields fields)
    rw [Json.canonicalize, WellFormed, wellFormedFields_iff]
    constructor
    · rw [(hperm.map Prod.fst).nodup_iff, map_fst_canonicalizeFields]
      exact h.1
    · exact fun f hf => wellFormed_canonicalizeFields h.2 f (hperm.mem_iff.1 hf)

theorem wellFormed_canonicalizeItems {items : List Json} (h : WellFormedItems items) :
    ∀ v ∈ canonicalizeItems items, v.WellFormed := by
  match items with
  | [] => simp [canonicalizeItems]
  | v :: items =>
    rw [WellFormedItems] at h
    rw [canonicalizeItems, List.forall_mem_cons]
    exact ⟨h.1.canonicalize, wellFormed_canonicalizeItems h.2⟩

theorem wellFormed_canonicalizeFields {fields : List (String × Json)}
    (h : WellFormedFields fields) : ∀ f ∈ canonicalizeFields fields, f.2.WellFormed := by
  match fields with
  | [] => simp [canonicalizeFields]
  | (k, v) :: fields =>
    rw [WellFormedFields] at h
    rw [canonicalizeFields, List.forall_mem_cons]
    exact ⟨h.1.canonicalize, wellFormed_canonicalizeFields h.2⟩

end

mutual

/-- The canonical form is its own canonical form. -/
theorem canonicalize_idem {v : Json} (h : v.WellFormed) :
    v.canonicalize.canonicalize = v.canonicalize := by
  match v with
  | .null => rfl
  | .bool _ => rfl
  | .number n => rw [canonicalize, canonicalize, Number.normalize_idem]
  | .string _ => rfl
  | .array items =>
    rw [WellFormed] at h
    rw [canonicalize, canonicalize, canonicalizeItems_eq_map (canonicalizeItems items)]
    rw [List.map_congr_left (canonicalize_of_mem_items h), List.map_id']
  | .object fields =>
    rw [WellFormed] at h
    have hperm := sortFields_perm (canonicalizeFields fields)
    have hkeys : ((canonicalizeFields fields).map Prod.fst).Nodup := by
      rw [map_fst_canonicalizeFields]
      exact h.1
    have hvalues : ∀ f ∈ sortFields (canonicalizeFields fields),
        (f.1, f.2.canonicalize) = f := fun f hf =>
      Prod.ext rfl (canonicalize_of_mem_fields h.2 f (hperm.mem_iff.1 hf))
    rw [canonicalize, canonicalize, canonicalizeFields_eq_map (sortFields _),
      List.map_congr_left hvalues, List.map_id', sortFields_eq_self (sortFields_ascending hkeys)]

theorem canonicalize_of_mem_items {items : List Json} (h : WellFormedItems items) :
    ∀ v ∈ canonicalizeItems items, v.canonicalize = v := by
  match items with
  | [] => simp [canonicalizeItems]
  | v :: items =>
    rw [WellFormedItems] at h
    rw [canonicalizeItems, List.forall_mem_cons]
    exact ⟨canonicalize_idem h.1, canonicalize_of_mem_items h.2⟩

theorem canonicalize_of_mem_fields {fields : List (String × Json)} (h : WellFormedFields fields) :
    ∀ f ∈ canonicalizeFields fields, f.2.canonicalize = f.2 := by
  match fields with
  | [] => simp [canonicalizeFields]
  | (k, v) :: fields =>
    rw [WellFormedFields] at h
    rw [canonicalizeFields, List.forall_mem_cons]
    exact ⟨canonicalize_idem h.1, canonicalize_of_mem_fields h.2⟩

end

/-! ### Values that are alike -/

mutual

/-- The values differ in the order of fields and the spelling of numbers only. -/
inductive Alike : Json → Json → Prop
  | null : Alike .null .null
  | bool (b : Bool) : Alike (.bool b) (.bool b)
  | number {m n : Number} (h : m.normalize = n.normalize) : Alike (.number m) (.number n)
  | string (s : String) : Alike (.string s) (.string s)
  | array {a b : List Json} (h : AlikeItems a b) : Alike (.array a) (.array b)
  | object {a b c : List (String × Json)} (horder : a.Perm b) (h : AlikeFields b c) :
      Alike (.object a) (.object c)

/-- The elements are alike in order. -/
inductive AlikeItems : List Json → List Json → Prop
  | nil : AlikeItems [] []
  | cons {v w : Json} {a b : List Json} (h : Alike v w) (hrest : AlikeItems a b) :
      AlikeItems (v :: a) (w :: b)

/-- The fields have the same keys in order and values that are alike. -/
inductive AlikeFields : List (String × Json) → List (String × Json) → Prop
  | nil : AlikeFields [] []
  | cons (k : String) {v w : Json} {a b : List (String × Json)} (h : Alike v w)
      (hrest : AlikeFields a b) : AlikeFields ((k, v) :: a) ((k, w) :: b)

end

mutual

/-- Values that are alike share the canonical form. -/
theorem Alike.canonicalize_eq {v w : Json} (h : Alike v w) (hv : v.WellFormed) :
    v.canonicalize = w.canonicalize := by
  match h with
  | .null => rfl
  | .bool b => rfl
  | .number hn => rw [canonicalize, canonicalize, hn]
  | .string s => rfl
  | .array hitems =>
    rw [WellFormed] at hv
    rw [canonicalize, canonicalize, hitems.canonicalize_eq hv]
  | .object horder hfields =>
    rw [WellFormed, wellFormedFields_iff] at hv
    have hb := wellFormedFields_iff.2 fun f hf => hv.2 f (horder.mem_iff.2 hf)
    rw [canonicalize, canonicalize, ← hfields.canonicalize_eq hb, object.injEq]
    refine sortFields_eq_of_perm ?_ ?_
    · rw [canonicalizeFields_eq_map, canonicalizeFields_eq_map]
      exact horder.map _
    · rw [map_fst_canonicalizeFields]
      exact hv.1

theorem AlikeItems.canonicalize_eq {a b : List Json} (h : AlikeItems a b)
    (ha : WellFormedItems a) : canonicalizeItems a = canonicalizeItems b := by
  match h with
  | .nil => rfl
  | .cons hv hrest =>
    rw [WellFormedItems] at ha
    rw [canonicalizeItems, canonicalizeItems, hv.canonicalize_eq ha.1, hrest.canonicalize_eq ha.2]

theorem AlikeFields.canonicalize_eq {a b : List (String × Json)} (h : AlikeFields a b)
    (ha : WellFormedFields a) : canonicalizeFields a = canonicalizeFields b := by
  match h with
  | .nil => rfl
  | .cons k hv hrest =>
    rw [WellFormedFields] at ha
    rw [canonicalizeFields, canonicalizeFields, hv.canonicalize_eq ha.1,
      hrest.canonicalize_eq ha.2]

end

/-- Fields with the same canonical forms up to order can be put into one order. -/
theorem exists_perm_of_canonicalizeFields {a b : List (String × Json)}
    (h : (canonicalizeFields a).Perm (canonicalizeFields b)) :
    ∃ c, a.Perm c ∧
      List.Forall₂ (fun f g => f.1 = g.1 ∧ f.2.canonicalize = g.2.canonicalize) c b := by
  let r (f g : String × Json) : Prop := f = (g.1, g.2.canonicalize)
  have ha : List.Forall₂ r (canonicalizeFields a) a := by
    rw [canonicalizeFields_eq_map, List.forall₂_map_left_iff, List.forall₂_same]
    exact fun f _ => rfl
  obtain ⟨c, hc, hperm⟩ := List.perm_comp_forall₂ h.symm ha
  refine ⟨c, hperm.symm, ?_⟩
  rw [canonicalizeFields_eq_map, List.forall₂_map_left_iff] at hc
  refine hc.flip.imp fun f g hfg => ?_
  exact ⟨(congrArg Prod.fst hfg).symm, (congrArg Prod.snd hfg).symm⟩

/-- Fields whose values are alike as soon as they share the canonical form. -/
theorem alikeFields_of_forall₂ {b c : List (String × Json)}
    (halike : ∀ f ∈ c, ∀ w, f.2.canonicalize = w.canonicalize → f.2.Alike w)
    (h : List.Forall₂ (fun f g => f.1 = g.1 ∧ f.2.canonicalize = g.2.canonicalize) c b) :
    AlikeFields c b := by
  induction h with
  | nil => exact .nil
  | @cons f g c b hfg hrest ih =>
    obtain ⟨k, v⟩ := f
    obtain ⟨l, w⟩ := g
    obtain ⟨rfl, hvw⟩ := hfg
    exact .cons k (halike (k, v) List.mem_cons_self w hvw)
      (ih fun f hf => halike f (List.mem_cons_of_mem _ hf))

mutual

/-- Values that share the canonical form are alike. -/
theorem alike_of_canonicalize_eq (v w : Json) (h : v.canonicalize = w.canonicalize) :
    v.Alike w := by
  match v with
  | .null =>
    cases w with
    | null => exact .null
    | _ => simp [canonicalize] at h
  | .bool b =>
    cases w with
    | bool b' =>
      rw [canonicalize, canonicalize, Json.bool.injEq] at h
      exact h ▸ .bool b
    | _ => simp [canonicalize] at h
  | .number n =>
    cases w with
    | number n' =>
      rw [canonicalize, canonicalize, number.injEq] at h
      exact .number h
    | _ => simp [canonicalize] at h
  | .string s =>
    cases w with
    | string s' =>
      rw [canonicalize, canonicalize, string.injEq] at h
      exact h ▸ .string s
    | _ => simp [canonicalize] at h
  | .array items =>
    cases w with
    | array items' =>
      rw [canonicalize, canonicalize, array.injEq] at h
      exact .array (alikeItems_of_canonicalizeItems_eq items items' h)
    | _ => simp [canonicalize] at h
  | .object fields =>
    cases w with
    | object fields' =>
      rw [canonicalize, canonicalize, object.injEq] at h
      have hperm : (canonicalizeFields fields).Perm (canonicalizeFields fields') :=
        (sortFields_perm _).symm.trans (h ▸ sortFields_perm _)
      obtain ⟨c, horder, hc⟩ := exists_perm_of_canonicalizeFields hperm
      refine .object horder (alikeFields_of_forall₂ (fun f hf => ?_) hc)
      exact alike_of_mem_fields fields f (horder.mem_iff.2 hf)
    | _ => simp [canonicalize] at h

theorem alikeItems_of_canonicalizeItems_eq (items items' : List Json)
    (h : canonicalizeItems items = canonicalizeItems items') : AlikeItems items items' := by
  match items with
  | [] =>
    cases items' with
    | nil => exact .nil
    | cons w items' => simp [canonicalizeItems] at h
  | v :: items =>
    cases items' with
    | nil => simp [canonicalizeItems] at h
    | cons w items' =>
      rw [canonicalizeItems, canonicalizeItems, List.cons.injEq] at h
      exact .cons (alike_of_canonicalize_eq v w h.1)
        (alikeItems_of_canonicalizeItems_eq items items' h.2)

theorem alike_of_mem_fields (fields : List (String × Json)) :
    ∀ f ∈ fields, ∀ w, f.2.canonicalize = w.canonicalize → f.2.Alike w := by
  match fields with
  | [] => simp
  | (k, v) :: fields =>
    rw [List.forall_mem_cons]
    exact ⟨alike_of_canonicalize_eq v, alike_of_mem_fields fields⟩

end

/-- The values that share a canonical form are those that are alike. -/
theorem canonicalize_eq_iff {v w : Json} (hv : v.WellFormed) :
    v.canonicalize = w.canonicalize ↔ v.Alike w :=
  ⟨alike_of_canonicalize_eq v w, fun h => h.canonicalize_eq hv⟩

end Json

end WarmPool
