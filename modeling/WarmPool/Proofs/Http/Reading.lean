import WarmPool.Http.ApiClient
import WarmPool.Proofs.Json.Faithful

/-!
# What the client reads of an object

A body is read through its shape, which keeps the listed fields of an object and passes over the
rest (`Shape.lookup?_readObject?`). So the finalizers and the version that the client finds in a
requirement are those of the object that was sent (`Body.requirement_of_read?`).
-/

namespace WarmPool

namespace Json

/-! ### Objects with metadata -/

/-- A field of the metadata of an object. -/
def metadataField? (key : String) (v : Json) : Option Json := (v.get? "metadata").bind (get? key)

/-- The finalizers of an object, none where there is no list of texts. -/
def finalizers (v : Json) : List String :=
  ((v.metadataField? "finalizers").bind toStrings?).getD []

/-- The version of an object. -/
def version? (v : Json) : Option String := (v.metadataField? "resourceVersion").bind toString?

theorem mem_of_lookup? {key : String} {v : Json} {fields : List (String × Json)}
    (h : lookup? key fields = some v) : (key, v) ∈ fields := by
  induction fields with
  | nil => cases h
  | cons f fields ih =>
    obtain ⟨k, w⟩ := f
    rw [lookup?_cons] at h
    split at h
    · next hk =>
      cases h
      rw [hk]
      exact List.mem_cons_self
    · exact List.mem_cons_of_mem _ (ih h)

/-- An object that has metadata, no key being there twice. -/
structure IsObject (v : Json) : Prop where
  wellFormed : v.WellFormed
  parts : ∃ fields metadata,
    v = .object fields ∧ lookup? "metadata" fields = some (.object metadata)

end Json

namespace Http

open Json

/-! ### Fields that are kept -/

namespace Shape

/--
What is kept of an object: a key that it has holds what its field was read as, if the field is not
passed over, and any other key holds what it held before.
-/
theorem lookup?_readObject? {repeats : Bool} {readField : String → Literal → Option (Option Json)}
    {before fields out : List (String × Json)}
    (h : readObject? repeats readField before (Literal.ofFields fields) = some out)
    (hnodup : (fields.map Prod.fst).Nodup) (key : String) :
    (∀ v, lookup? key fields = some v → ∃ found, readField key (Literal.ofJson v) = some found ∧
      lookup? key out = found.or (lookup? key before)) ∧
    (lookup? key fields = none → lookup? key out = lookup? key before) := by
  induction fields generalizing before with
  | nil =>
    obtain rfl : before = out := Option.some.inj h
    exact ⟨fun v hv => (by cases hv), fun _ => rfl⟩
  | cons f fields ih =>
    obtain ⟨k, w⟩ := f
    rw [List.map_cons, List.nodup_cons] at hnodup
    obtain ⟨hnew, hnodup⟩ := hnodup
    -- The first field is passed over, or it is set; the rest is read on top of that.
    obtain ⟨found, hfound, after, hrest, hafter⟩ : ∃ found,
        readField k (Literal.ofJson w) = some found ∧ ∃ after,
          readObject? repeats readField after (Literal.ofFields fields) = some out ∧
          ∀ key, lookup? key after =
            if k = key then found.or (lookup? key before) else lookup? key before := by
      unfold Literal.ofFields readObject? at h
      cases hread : readField k (Literal.ofJson w) with
      | none => simp only [hread, reduceCtorEq] at h
      | some found =>
        refine ⟨found, rfl, ?_⟩
        cases found with
        | none =>
          simp only [hread] at h
          exact ⟨before, h, fun key => (by simp)⟩
        | some u =>
          simp only [hread] at h
          split at h
          · cases h
          · exact ⟨_, h, fun key => lookup?_setField key k u before⟩
    have hih := ih hrest hnodup
    rw [lookup?_cons]
    by_cases hk : k = key
    · subst hk
      have hlast := hih.2 (lookup?_eq_none hnew)
      rw [hafter, if_pos rfl] at hlast
      rw [if_pos rfl]
      refine ⟨fun v hv => ?_, fun hnone => nomatch hnone⟩
      cases hv
      exact ⟨found, hfound, hlast⟩
    · rw [hafter, if_neg hk] at hih
      rw [if_neg hk]
      exact hih

/-- A text is kept as it is, and nothing else is one. -/
theorem read?_text {depth : Nat} {v w : Json} (h : read? text depth (Literal.ofJson v) = some w) :
    ∃ s, v = .string s ∧ w = .string s := by
  unfold text read? at h
  obtain ⟨hvalue, htest⟩ := Option.filter_eq_some_iff.1 h
  cases v with
  | string s =>
    rw [Literal.ofJson, Literal.value?] at hvalue
    exact ⟨s, rfl, (Option.some.inj hvalue).symm⟩
  | null =>
    rw [Literal.ofJson, Literal.value?] at hvalue
    cases hvalue
    cases htest
  | bool b =>
    rw [Literal.ofJson, Literal.value?] at hvalue
    cases hvalue
    cases htest
  | number n =>
    rw [Literal.ofJson, Literal.value?] at hvalue
    obtain ⟨m, -, rfl⟩ := Option.map_eq_some_iff.1 hvalue
    cases htest
  | array items =>
    cases depth with
    | zero => cases hvalue
    | succ depth =>
      rw [Literal.ofJson, Literal.value?] at hvalue
      obtain ⟨values, -, rfl⟩ := Option.map_eq_some_iff.1 hvalue
      cases htest
  | object fields =>
    cases depth with
    | zero => cases hvalue
    | succ depth =>
      rw [Literal.ofJson, Literal.value?] at hvalue
      obtain ⟨values, -, rfl⟩ := Option.map_eq_some_iff.1 hvalue
      cases htest

theorem mapM_read?_text {depth : Nat} {items values : List Json}
    (h : (Literal.ofItems items).mapM (fun l => read? text depth l) = some values) :
    values = items ∧ ∃ strings, items.mapM toString? = some strings := by
  induction items generalizing values with
  | nil =>
    cases h
    exact ⟨rfl, [], rfl⟩
  | cons item items ih =>
    rw [Literal.ofItems, List.mapM_cons] at h
    obtain ⟨w, hw, h⟩ := Option.bind_eq_some_iff.1 h
    obtain ⟨rest, hrest, h⟩ := Option.bind_eq_some_iff.1 h
    cases h
    obtain ⟨s, rfl, rfl⟩ := read?_text hw
    obtain ⟨rfl, strings, hstrings⟩ := ih hrest
    refine ⟨rfl, s :: strings, ?_⟩
    rw [List.mapM_cons, hstrings]
    rfl

/-- A list of texts is kept as it is. -/
theorem read?_texts {depth : Nat} {v w : Json} (h : read? texts depth (Literal.ofJson v) = some w) :
    w = v ∧ ∃ strings, v.toStrings? = some strings := by
  cases v with
  | array items =>
    cases depth with
    | zero => cases h
    | succ depth =>
      unfold texts read? at h
      rw [Literal.ofJson] at h
      obtain ⟨values, hvalues, rfl⟩ := Option.map_eq_some_iff.1 h
      obtain ⟨rfl, hstrings⟩ := mapM_read?_text hvalues
      exact ⟨rfl, hstrings⟩
  | _ => cases depth <;> cases h

/-- What may be null is null, or is read as what it may be otherwise. -/
theorem read?_optional {shape : Shape} {depth : Nat} {v w : Json}
    (h : read? (optional shape) depth (Literal.ofJson v) = some w) :
    v = .null ∧ w = .null ∨ read? shape depth (Literal.ofJson v) = some w := by
  unfold read? at h
  cases v with
  | null =>
    cases h
    exact .inl ⟨rfl, rfl⟩
  | _ => exact .inr h

/-- Which of the listed fields that may be null a key stands for. -/
theorem readField?_optionals (listed : List (String × Shape)) (depth : Nat) (key : String)
    (literal : Literal) :
    readField? (optionals listed) depth key literal =
      match listed.find? fun f => f.1 = key with
      | none => some none
      | some f => (read? (optional f.2) depth literal).map some := by
  induction listed with
  | nil => rfl
  | cons f listed ih =>
    obtain ⟨name, shape⟩ := f
    show (if name = key then _ else readField? (optionals listed) depth key literal) = _
    by_cases hname : name = key
    · rw [if_pos hname, List.find?_cons_of_pos (by simpa using hname)]
    · rw [if_neg hname, ih, List.find?_cons_of_neg (by simpa using hname)]

/-- A listed field of which nothing is changed is there as before. -/
theorem lookup?_of_optionals {depth : Nat} {listed : List (String × Shape)}
    {fields : List (String × Json)} {w : Json} (hnodup : (fields.map Prod.fst).Nodup)
    (h : read? (lenient (optionals listed)) (depth + 1) (Literal.ofJson (.object fields)) =
      some w) :
    ∃ out, w = .object out ∧ ∀ {key shape},
      (listed.find? fun f => f.1 = key) = some (key, shape) →
      (∀ {v w}, read? shape depth (Literal.ofJson v) = some w → w = v) →
      lookup? key out = lookup? key fields := by
  unfold read? at h
  rw [Literal.ofJson] at h
  obtain ⟨out, hout, rfl⟩ := Option.map_eq_some_iff.1 h
  refine ⟨out, rfl, fun {key shape} hlisted hkept => ?_⟩
  obtain ⟨hthere, hmissing⟩ := lookup?_readObject? hout hnodup key
  cases hv : lookup? key fields with
  | none => exact hmissing hv
  | some v =>
    obtain ⟨found, hfound, hkey⟩ := hthere v hv
    rw [readField?_optionals, hlisted] at hfound
    obtain ⟨w, hw, rfl⟩ := Option.map_eq_some_iff.1 hfound
    rw [hkey]
    rcases read?_optional hw with ⟨rfl, rfl⟩ | hw
    · rfl
    · exact congrArg some (hkept hw)

/-- What a record keeps of an object. -/
theorem lookup?_of_record {least depth : Nat} {listed : List (String × Shape)}
    {fields : List (String × Json)} {w : Json} (hnodup : (fields.map Prod.fst).Nodup)
    (h : read? (record least listed) (depth + 1) (Literal.ofJson (.object fields)) = some w) :
    ∃ out, w = .object out ∧ ∀ {key v}, lookup? key fields = some v →
      ∃ found, readField? listed depth key (Literal.ofJson v) = some found ∧
        lookup? key out = found := by
  unfold read? at h
  rw [Literal.ofJson] at h
  obtain ⟨out, hout, rfl⟩ := Option.map_eq_some_iff.1 h
  refine ⟨out, rfl, fun {key v} hv => ?_⟩
  obtain ⟨found, hfound, hkey⟩ := (lookup?_readObject? hout hnodup key).1 v hv
  exact ⟨found, hfound, hkey.trans Option.or_none⟩

end Shape

end Http

/-! ### Metadata -/

/-- A field that may be null is what is read of its value, if nothing is read of null. -/
theorem Json.optional?_eq_bind {α : Type} {decode : Json → Option α} {key : String}
    {fields : List (String × Json)} {o : Option α} (h : optional? decode key fields = some o)
    (hnull : decode .null = none) : o = (lookup? key fields).bind decode := by
  unfold optional? at h
  split at h
  · next hnone =>
    cases h
    rw [hnone]
    rfl
  · next hsome =>
    cases h
    rw [hsome]
    exact hnull.symm
  · next v _ hsome =>
    obtain ⟨a, ha, rfl⟩ := Option.map_eq_some_iff.1 h
    rw [hsome]
    exact ha.symm

open Json

/-- The version and the finalizers that are read of metadata. -/
theorem Metadata.shown_of_decode? {fields : List (String × Json)} {m : Metadata}
    (h : Metadata.decode? (.object fields) = some m) :
    m.resourceVersion = (lookup? "resourceVersion" fields).bind toString? ∧
      m.finalizers = (lookup? "finalizers" fields).bind toStrings? := by
  unfold Metadata.decode? at h
  obtain ⟨_, hfields, h⟩ := Option.bind_eq_some_iff.1 h
  cases hfields
  iterate 4 obtain ⟨_, -, h⟩ := Option.bind_eq_some_iff.1 h
  obtain ⟨finalizers, hfinalizers, h⟩ := Option.bind_eq_some_iff.1 h
  iterate 7 obtain ⟨_, -, h⟩ := Option.bind_eq_some_iff.1 h
  obtain ⟨version, hversion, h⟩ := Option.bind_eq_some_iff.1 h
  iterate 2 obtain ⟨_, -, h⟩ := Option.bind_eq_some_iff.1 h
  cases h
  exact ⟨optional?_eq_bind hversion rfl, optional?_eq_bind hfinalizers rfl⟩

namespace Http.Body

variable {depth : Nat} {fields : List (String × Json)} {v w : Json} {r : Requirement}
  {text : String}

/-- Reading metadata through its shape loses neither the version nor the finalizers. -/
theorem metadata_of_read? (hnodup : (fields.map Prod.fst).Nodup)
    (hread : Shape.metadata.read? (depth + 1) (Literal.ofJson (.object fields)) = some w)
    {m : Metadata} (hdecode : Metadata.decode? w = some m) :
    m.resourceVersion = (lookup? "resourceVersion" fields).bind toString? ∧
      m.finalizers = (lookup? "finalizers" fields).bind toStrings? := by
  obtain ⟨out, rfl, hkept⟩ := Shape.lookup?_of_optionals hnodup hread
  have hversion : lookup? "resourceVersion" out = lookup? "resourceVersion" fields :=
    @hkept _ .text rfl fun h => by
      obtain ⟨s, rfl, rfl⟩ := Shape.read?_text h
      rfl
  have hfinalizers : lookup? "finalizers" out = lookup? "finalizers" fields :=
    @hkept _ .texts rfl fun h => (Shape.read?_texts h).1
  rw [← hversion, ← hfinalizers]
  exact Metadata.shown_of_decode? hdecode

/-- A requirement shows the version and the finalizers of the object that it was read from. -/
theorem requirement_of_read? (hv : v.IsObject)
    (htext : Literal.parse? text = some (Literal.ofJson v))
    (hread : Body.requirement.read? text = some r) :
    r.metadata.resourceVersion = v.version? ∧ r.metadata.finalizers.getD [] = v.finalizers := by
  obtain ⟨fields, mfields, rfl, hmetadata⟩ := hv.parts
  obtain ⟨hnodup, hfields⟩ := hv.wellFormed
  have hmfields : (mfields.map Prod.fst).Nodup :=
    (wellFormedFields_iff.1 hfields _ (mem_of_lookup? hmetadata)).1
  unfold Body.read? at hread
  rw [htext, Option.bind_some] at hread
  obtain ⟨w, hw, hdecode⟩ := Option.bind_eq_some_iff.1 hread
  -- In the record that the object is, the metadata is read through its own shape.
  obtain ⟨out, rfl, hout⟩ := @Shape.lookup?_of_record _ 126 _ _ _ hnodup hw
  obtain ⟨found, hfound, hkey⟩ := hout hmetadata
  obtain ⟨w, hw, rfl⟩ := Option.map_eq_some_iff.1
    (show (Shape.metadata.read? (125 + 1) (Literal.ofJson (.object mfields))).map some =
      some found from hfound)
  -- Then the metadata of the requirement is what was read there.
  have hdecode : Requirement.decode? (.object out) = some r := hdecode
  obtain ⟨⟨m, spec, status⟩, hparts, rfl⟩ := Option.map_eq_some_iff.1 hdecode
  unfold Resource.decode? at hparts
  obtain ⟨_, hobject, hparts⟩ := Option.bind_eq_some_iff.1 hparts
  cases hobject
  obtain ⟨m', hm, hparts⟩ := Option.bind_eq_some_iff.1 hparts
  iterate 2 obtain ⟨_, -, hparts⟩ := Option.bind_eq_some_iff.1 hparts
  cases hparts
  unfold required? at hm
  rw [hkey] at hm
  obtain ⟨hversion, hfinalizers⟩ := metadata_of_read? hmfields hw hm
  have hget : (Json.object fields).get? "metadata" = some (.object mfields) := hmetadata
  unfold Json.version? Json.finalizers metadataField?
  rw [hget]
  exact ⟨hversion, congrArg (Option.getD · []) hfinalizers⟩

end Http.Body

end WarmPool
