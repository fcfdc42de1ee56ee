import WarmPool.Proofs.History

/-!
# Caches addressed by their template

The cache that a requirement makes bears the key that is sought, in its name and in its label, and
holds the template of the specification as it is then. The key sought is that of a template which
the requirement had at some time (`Path.dated`), so the cache is found by its own template exactly
if the two templates have one key (`cache_addressed_iff`). A template that is edited between the two
reconciles gets a cache that bears the key of another one (`misaddressed_cache`).
-/

namespace WarmPool

open Reconcile

/-! ### The key of a cache -/

namespace Cache

/-- The cache bears a key, in its name and in its label. -/
def Bears (c : Cache) (key : String) : Prop :=
  c.metadata.name = some (nameForKey key) ∧
    (c.metadata.labels.bind (·.get? keyLabel)) = some key

/-- The cache bears the key of its own template. -/
def Addressed (c : Cache) : Prop := c.Bears c.spec.template.key

variable {c : Cache} {key key' : String}

/-- A cache bears one key only. -/
theorem Bears.eq (h : c.Bears key) (h' : c.Bears key') : key = key' :=
  Option.some.inj (h.2.symm.trans h'.2)

theorem Bears.addressed_iff (h : c.Bears key) : c.Addressed ↔ key = c.spec.template.key := by
  constructor
  · exact h.eq
  · intro hkey
    unfold Addressed
    rwa [← hkey]

theorem bears_newCache (settings : Settings) (r : Requirement) (key : String) :
    (newCache settings r key).Bears key := by
  refine ⟨rfl, ?_⟩
  simp [newCache, StringMap.ofList, StringMap.get?, StringMap.insert, StringMap.insertEntry,
    StringMap.empty]

end Cache

namespace Reconcile

variable {settings : Settings} {occasion : Occasion} {r : Requirement} {past : List Answered}
  {s : RequirementStatus}

/-! ### The caches that are made -/

/-- A cache that is made is the one for the key sought. -/
def MakesSought (settings : Settings) (r : Requirement) (_ : List Answered) (call : Call) : Prop :=
  ∀ cache, call = .createCache cache → cache = newCache settings r (soughtKey r r.known)

/-- A cache is made by a search, as soon as the one sought was not found. -/
theorem Move.createCache_cases {cache : Cache} (h : Move occasion r past (.createCache cache)) :
    AdvancesFrom r .cacheChecking ∧
      past = [⟨.getCache (Cache.nameForKey (soughtKey r r.known)), .ok none⟩] := by
  cases h with
  | createCache h _ => exact ⟨h, rfl⟩

/-- Another cache is never made, whatever a reconcile is answered. -/
theorem plan_makesSought (settings : Settings) (occasion : Occasion) (r : Requirement) :
    (plan settings occasion r).Obeys (MakesSought settings r) [] := by
  have hmoves := plan_obeys settings occasion r
  -- Only a search makes caches, so that the plan is followed through a search alone.
  by_cases hfrom : AdvancesFrom r .cacheChecking
  · cases hplace : r.metadata.namespaceName with
    | none =>
      unfold plan
      rw [hplace]
      exact trivial
    | some namespaceName =>
      rw [plan_of_advancesFrom hfrom (by rw [hplace]; rfl)]
      unfold advance
      rw [hfrom.2.2]
      unfold checkCache
      let looking : RequirementStatus := { r.known with key := some (soughtKey r r.known) }
      refine Plan.Meets.orFail_bind fun uid huid => ?_
      refine Plan.Meets.ask_bind (fun _ hcall => nomatch hcall) fun found => ?_
      -- After any answers but the one that there is no such cache, none is made.
      cases found with
      | some cache =>
        have hsearch :=
          @searchPool_obeys settings occasion r looking uid cache hfrom huid hfrom.2.2 rfl id
        refine hsearch.mono fun past' call hpast h => ?_
        rintro made rfl
        rw [h.createCache_cases.2] at hpast
        exact absurd (hpast.eq_of_length rfl) (by simp)
      | none =>
        refine Plan.Meets.ask_bind (fun made hcall => (Call.createCache.inj hcall).symm)
          fun created => ?_
        have hmake := @makeCache_obeys settings occasion r looking hfrom hfrom.2.2 rfl id
        have hrest := hmake.2 (.ok created)
        refine Plan.Obeys.mono hrest fun past' call hpast h => ?_
        rintro made rfl
        rw [h.createCache_cases.2] at hpast
        exact absurd hpast.length_le (by simp)
  · refine hmoves.mono fun past' call _ h => ?_
    rintro made rfl
    exact absurd h.createCache_cases.1 hfrom

/-- A search that finds no cache makes one. -/
theorem plan_makes_cache (settings : Settings) (occasion : Occasion)
    (hfrom : AdvancesFrom r .cacheChecking) (hplace : r.metadata.namespaceName.isSome)
    {uid : String} (huid : r.metadata.uid = some uid) :
    ∃ next next', plan settings occasion r =
        .call r.namespaceName (.getCache (Cache.nameForKey (soughtKey r r.known))) next ∧
      next (.ok none) =
        .call r.namespaceName (.createCache (newCache settings r (soughtKey r r.known)))
          next' := by
  rw [plan_of_advancesFrom hfrom hplace]
  unfold advance
  rw [hfrom.2.2]
  unfold checkCache uidOf
  rw [huid]
  exact ⟨_, _, rfl, rfl⟩

/-! ### The key that is stored -/

/-- A report keeps the key, or has that of the template, which is valid. -/
theorem Reports.key_cases (h : Reports occasion r past s) :
    s.key = r.known.key ∨ (s.key = some r.spec.template.key ∧ r.spec.validate = .ok ()) := by
  have hsought (hvalid : r.spec.validate = .ok ()) : some (soughtKey r r.known) = r.known.key ∨
      (some (soughtKey r r.known) = some r.spec.template.key ∧ r.spec.validate = .ok ()) := by
    unfold soughtKey
    cases r.known.key with
    | none => exact .inr ⟨rfl, hvalid⟩
    | some key => exact .inl rfl
  cases h with
  | taken h =>
    unfold intake
    split
    · exact .inr ⟨rfl, h.2.1⟩
    · exact .inl rfl
  | made h _ | waiting h _ _ _ | bound h _ _ => exact hsought h.2.1
  | _ => exact .inl rfl

end Reconcile

namespace Lifetime

variable {r₀ : Requirement} {l : Lifetime} {former former' : List Lifetime}

/-- The key is that of a valid template that the requirement had in one of these states. -/
def Dated (states : List Lifetime) (key : String) : Prop :=
  ∃ r, Stored states r ∧ r.spec.validate = .ok () ∧ r.spec.template.key = key

theorem Dated.mono {key : String} (h : Dated former key) (hsubset : former ⊆ former') :
    Dated former' key := by
  obtain ⟨r, ⟨l, hmem, hstored⟩, hr⟩ := h
  exact ⟨r, ⟨l, hsubset hmem, hstored⟩, hr⟩

/-- A key that is stored is that of a template that the requirement had before. -/
theorem Path.dated (h : Path (created r₀) former l) (hnew : r₀.status = none)
    (htimely : r₀.Timely) {r : Requirement} (hstored : l.stored = some r) {key : String}
    (hkey : r.known.key = some key) : Dated former key := by
  -- By induction on the path: a report has the key that is stored before, or a new one.
  induction h generalizing r key with
  | refl =>
    cases hstored
    rw [Requirement.known_of_new hnew] at hkey
    cases hkey
  | @step former l l' hpath hstep ih =>
    have hproper := ((proper_created hnew htimely).runs hpath.runs).1
    obtain ⟨q, hq, hbecomes⟩ := hproper.becomes hstep hstored
    have hbefore {key : String} (hkey : q.known.key = some key) : Dated (l :: former) key :=
      (ih hq hkey).mono (List.subset_cons_self l former)
    cases hbecomes with
    | edited hedits =>
      rw [hedits.known] at hkey
      exact hbefore hkey
    | @reported t s htask hcurrent hreports hknown =>
      rw [hknown] at hkey
      have hlaid : s.key.or q.known.key = some key := hkey
      rcases hreports.key_cases with hsame | ⟨htemplate, hvalid⟩
      · rw [hsame, ← hcurrent.known, Option.or_self] at hlaid
        exact hbefore hlaid
      · rw [htemplate, Option.some_or] at hlaid
        exact ⟨t.requirement, (hpath.given rfl htask).cons l, hvalid, Option.some.inj hlaid⟩

/-- Every state on a path has a path of its own. -/
theorem Path.exists_path_of_mem {l₀ l' : Lifetime} (h : Path l₀ former l) (hmem : l' ∈ former) :
    ∃ former', Path l₀ former' l' ∧ former' ⊆ former := by
  induction h with
  | refl => cases hmem
  | @step former l _ hpath _ ih =>
    rcases List.mem_cons.1 hmem with rfl | hmem
    · exact ⟨former, hpath, List.subset_cons_self _ former⟩
    · obtain ⟨former', hpath', hsubset⟩ := ih hmem
      exact ⟨former', hpath', List.subset_cons_of_subset l hsubset⟩

/-! ### Lives up to a cache -/

/-- A life in which a search finds no cache makes one. -/
theorem Runs.makes_cache {l₀ : Lifetime} {r : Requirement} {namespaceName name uid : String}
    (h : Runs l₀ { stored := some r }) (hfrom : AdvancesFrom r .cacheChecking)
    (hat : r.metadata.isAt namespaceName name = true) (huid : r.metadata.uid = some uid) :
    ∃ t next, Runs l₀ { stored := some r, task := some t } ∧ t.requirement = r ∧
      t.rest = .call t.namespaceName (.createCache (newCache {} r (soughtKey r r.known))) next := by
  obtain ⟨next, next', hplan, hnext⟩ :=
    plan_makes_cache {} sampleOccasion hfrom (Metadata.isSome_namespaceName hat) huid
  obtain ⟨_, hruns⟩ := Reaches.answer (h.begin {} (show sampleOccasion.now.Valid by decide)) hplan
    (.ok none)
  exact ⟨_, next', hruns, rfl, hnext⟩

end Lifetime

/-! ### Whose key a cache bears -/

/--
Whatever the reconciles of a requirement are answered and however it is edited meanwhile, a cache
that it makes holds the template of the valid specification that the reconcile was given. It bears
the key of a valid template that the requirement had by then, and that is the key of its own
template exactly if the two templates have the same key.
-/
theorem cache_addressed_iff {r₀ : Requirement} (hnew : r₀.status = none) (htimely : r₀.Timely)
    {former : List Lifetime} {l : Lifetime} (h : Lifetime.Path (.created r₀) former l) {t : Task}
    (ht : l.task = some t) {n : String} {cache : Cache} {next : Except Error Bool → Plan Action}
    (hrest : t.rest = .call n (.createCache cache) next) :
    Lifetime.Stored former t.requirement ∧ t.requirement.spec.validate = .ok () ∧
      cache.spec.template = t.requirement.spec.template ∧
      ∃ r, Lifetime.Stored former r ∧ r.spec.validate = .ok () ∧
        cache.Bears r.spec.template.key ∧
        (cache.Addressed ↔ r.spec.template.key = t.requirement.spec.template.key) := by
  have hmakes := @Lifetime.Path.obeys _ _ _ (fun settings _ r => MakesSought settings r)
    plan_makesSought h rfl t ht
  have hmoves :=
    (((Lifetime.proper_created hnew htimely).runs h.runs).1.task t ht).moves
  rw [hrest] at hmakes hmoves
  obtain ⟨⟨-, hvalid, -⟩, -⟩ := hmoves.1.createCache_cases
  have hgiven := h.given rfl ht
  -- The key sought is stored already, or computed from the template that the reconcile was given.
  obtain ⟨r, hr, hrvalid, hkey⟩ :
      Lifetime.Dated former (soughtKey t.requirement t.requirement.known) := by
    unfold soughtKey
    cases hknown : t.requirement.known.key with
    | none => exact ⟨t.requirement, hgiven, hvalid, rfl⟩
    | some key =>
      obtain ⟨l', hmem, hstored⟩ := hgiven
      obtain ⟨former', hpath, hsubset⟩ := h.exists_path_of_mem hmem
      exact (hpath.dated hnew htimely hstored hknown).mono hsubset
  have hcache : cache = newCache t.settings t.requirement r.spec.template.key := by
    rw [hkey]
    exact hmakes.1 cache rfl
  have hbears : cache.Bears r.spec.template.key := by
    rw [hcache]
    exact Cache.bears_newCache _ _ _
  have htemplate : cache.spec.template = t.requirement.spec.template := by
    rw [hcache]
    rfl
  refine ⟨hgiven, hvalid, htemplate, r, hr, hrvalid, hbears, ?_⟩
  rw [hbears.addressed_iff, htemplate]

/-- A cache that the sample makes. -/
theorem cache_addressed_iff_sample : ∃ former l, ∃ t : Task, ∃ n cache next,
    Lifetime.Path (.created sampleRequirement) former l ∧ l.task = some t ∧
      t.rest = .call n (.createCache cache) next ∧ Lifetime.Stored former t.requirement ∧
      ∃ r, Lifetime.Stored former r ∧ cache.Bears r.spec.template.key := by
  obtain ⟨r, hlife, halike, hsearches, -⟩ := Lifetime.sample_taken
  have hat : r.metadata.isAt "dev" "sample" = true := halike.isAt rfl
  obtain ⟨t, next, hruns, -, hrest⟩ := Lifetime.Runs.makes_cache hlife.runs
    ⟨halike.deleting, halike.spec ▸ validate_sampleRequirement, hsearches⟩ hat halike.uid
  obtain ⟨former, hpath⟩ := hruns.exists_path
  obtain ⟨hstored, -, -, r', hr', -, hbears, -⟩ :=
    cache_addressed_iff rfl sampleRequirement_timely hpath rfl hrest
  exact ⟨former, _, t, _, _, next, hpath, rfl, hrest, hstored, r', hr', hbears⟩

/-- Another specification for the sample, as valid as its own. -/
def reimaged : RequirementSpec :=
  { sampleRequirement.spec with
    template := { applications := [{ name := "app", provision := { image := "app:2" } }] } }

/-- The template of the sample is changed after its key was stored. -/
theorem misaddressed_cache : ∃ l, ∃ t : Task, ∃ n cache next,
    Lifetime.Runs (.created sampleRequirement) l ∧ l.task = some t ∧
      t.rest = .call n (.createCache cache) next ∧
      t.requirement.spec = reimaged ∧ reimaged.validate = .ok () ∧ ¬cache.Addressed := by
  have hvalid : reimaged.validate = .ok () := by decide
  obtain ⟨r, hlife, halike, hsearches, hkey⟩ := Lifetime.sample_taken
  let edited : Requirement := { r with spec := reimaged }
  have hedits : r.Edits edited := ⟨rfl, rfl, rfl, id, id⟩
  have hat : edited.metadata.isAt "dev" "sample" = true := halike.isAt rfl
  obtain ⟨t, next, hruns, hgiven, hrest⟩ :=
    Lifetime.Runs.makes_cache (hlife.runs.tail (.edit rfl hedits))
      ⟨halike.deleting, hvalid, hsearches⟩ hat halike.uid
  refine ⟨_, t, _, _, next, hruns, rfl, hrest, hgiven ▸ rfl, hvalid, ?_⟩
  have hsought : soughtKey edited edited.known = sampleRequirement.spec.template.key := by
    unfold soughtKey
    rw [show edited.known.key = some sampleRequirement.spec.template.key from hkey]
    rfl
  rw [(Cache.bears_newCache {} edited _).addressed_iff, hsought]
  show sampleRequirement.spec.template.key ≠ reimaged.template.key
  decide +kernel

end WarmPool
