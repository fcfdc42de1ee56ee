import Mathlib.Data.List.TakeWhile
import WarmPool.Http.ApiClient

/-!
# Where requests go

A path of ordinary characters is the path of the request that is made for it, whatever the pairs of
the query are (`Request.ofTarget?_get`, `Request.ofTarget?_patch`): what a form makes of a text has
neither of the characters at which a target is parted.
-/

namespace WarmPool.Http

variable {s path : String} {c : Char}

/-! ### Characters -/

/-- All characters may be in a path. -/
def IsPathText (s : String) : Prop := ∀ c ∈ s.toList, isPathChar c = true

instance : Decidable (IsPathText s) :=
  decidable_of_iff (s.toList.all isPathChar = true) List.all_eq_true

theorem IsPathText.append {t : String} (hs : IsPathText s) (ht : IsPathText t) :
    IsPathText (s ++ t) := by
  intro c hc
  rw [String.toList_append] at hc
  rcases List.mem_append.1 hc with hc | hc
  · exact hs c hc
  · exact ht c hc

/-- A query does not begin inside a path, and nothing behind a path is cut off. -/
theorem ne_of_isPathChar (h : isPathChar c = true) : c ≠ '?' ∧ c ≠ '#' := by
  constructor
  · rintro rfl
    exact absurd h (by decide)
  · rintro rfl
    exact absurd h (by decide)

theorem ne_of_isQueryChar (h : isQueryChar c = true) : c ≠ '#' := by
  rintro rfl
  exact absurd h (by decide)

theorem isQueryChar_of_formByte (b : UInt8) : ∀ c ∈ formByte b, isQueryChar c = true := by
  have hall : ∀ n : Fin 256, (formByte (UInt8.ofNat n)).all isQueryChar = true := by
    decide +kernel
  have hb := hall ⟨b.toNat, b.toNat_lt⟩
  rw [UInt8.ofNat_toNat] at hb
  exact List.all_eq_true.1 hb

theorem isQueryChar_of_formText (s : String) : ∀ c ∈ (formText s).toList, isQueryChar c = true := by
  intro c hc
  unfold formText at hc
  rw [String.toList_ofList] at hc
  obtain ⟨b, -, hb⟩ := List.mem_flatMap.1 hc
  exact isQueryChar_of_formByte b c hb

/-- The pairs of a query as they are sent consist of characters for queries. -/
theorem isQueryChar_of_pairs (pairs : List (String × String)) :
    ∀ c ∈ (String.join (pairs.map fun pair => "&" ++ formPair pair)).toList,
      isQueryChar c = true := by
  intro c hc
  rw [String.toList_join] at hc
  obtain ⟨text, htext, hc⟩ := List.mem_flatMap.1 hc
  obtain ⟨pair, -, rfl⟩ := List.mem_map.1 htext
  unfold formPair at hc
  simp only [String.toList_append, List.mem_append] at hc
  rcases hc with hc | (hc | hc) | hc
  · obtain rfl : c = '&' := List.mem_singleton.1 hc
    decide
  · exact isQueryChar_of_formText _ c hc
  · obtain rfl : c = '=' := List.mem_singleton.1 hc
    decide
  · exact isQueryChar_of_formText _ c hc

/-! ### Requests -/

namespace Request

variable {body : Option (ContentType × Json)}

/-- An object is read at its path. -/
theorem ofTarget?_get (h : IsPathText path) :
    ofTarget? .get path [] body = some ⟨.get, path, [], body⟩ := by
  have hvisible : path.toList.takeWhile (· ≠ '#') = path.toList :=
    List.takeWhile_eq_self_iff.2 fun c hc => by simpa using (ne_of_isPathChar (h c hc)).2
  have hpath : path.toList.takeWhile (· ≠ '?') = path.toList :=
    List.takeWhile_eq_self_iff.2 fun c hc => by simpa using (ne_of_isPathChar (h c hc)).1
  have hquery : path.toList.dropWhile (· ≠ '?') = [] :=
    List.dropWhile_eq_nil_iff.2 fun c hc => by simpa using (ne_of_isPathChar (h c hc)).1
  have htext : targetText .get path [] = path := rfl
  unfold ofTarget?
  rw [htext]
  dsimp only
  rw [hvisible, hpath, hquery, if_pos, String.ofList_toList]
  · rfl
  · rw [Bool.and_eq_true]
    exact ⟨List.all_eq_true.2 h, rfl⟩

/-- A patch goes to the path of what it changes. -/
theorem ofTarget?_patch (h : IsPathText path) (pairs : List (String × String)) :
    ∃ query, ofTarget? .patch path pairs body = some ⟨.patch, path, query, body⟩ := by
  let tail := (String.join (pairs.map fun pair => "&" ++ formPair pair)).toList
  have htail : ∀ c ∈ tail, isQueryChar c = true := isQueryChar_of_pairs pairs
  have htext : (targetText .patch path pairs).toList = path.toList ++ '?' :: tail := by
    show (path ++ "?" ++ String.join _).toList = _
    simp [tail]
  have hvisible : (path.toList ++ '?' :: tail).takeWhile (· ≠ '#') =
      path.toList ++ '?' :: tail := by
    refine List.takeWhile_eq_self_iff.2 fun c hc => ?_
    rcases List.mem_append.1 hc with hc | hc
    · simpa using (ne_of_isPathChar (h c hc)).2
    · rcases List.mem_cons.1 hc with rfl | hc
      · decide
      · simpa using ne_of_isQueryChar (htail c hc)
  have hfront : ∀ c ∈ path.toList, decide (c ≠ '?') = true := fun c hc => by
    simpa using (ne_of_isPathChar (h c hc)).1
  have hpath : (path.toList ++ '?' :: tail).takeWhile (· ≠ '?') = path.toList := by
    rw [List.takeWhile_append_of_pos hfront, List.takeWhile_cons_of_neg (by simp), List.append_nil]
  have hquery : (path.toList ++ '?' :: tail).dropWhile (· ≠ '?') = '?' :: tail := by
    rw [List.dropWhile_append_of_pos hfront, List.dropWhile_cons_of_neg (by simp)]
  unfold ofTarget?
  dsimp only
  rw [htext, hvisible, hpath, hquery, if_pos, String.ofList_toList]
  · exact ⟨_, rfl⟩
  · rw [Bool.and_eq_true]
    exact ⟨List.all_eq_true.2 h, List.all_eq_true.2 htail⟩

end Request

end WarmPool.Http
