import WarmPool.Proofs.Addressing
import WarmPool.Proofs.CommandLine
import WarmPool.Proofs.Minting
import WarmPool.Proofs.Naming

/-!
# What is made is well-formed and found

A reconcile makes caches and operations from the specification of its requirement, from the key by
which it lists operations and from its settings. Each part has passed a check before: the template
and the duration text that of the specification, the default duration that of the command line, and
the key is that of a template, or it was stored. So what is made holds the template, is found by the
key, and has a proper name and labels, where for a cache the stored key has to complete a name, as
the keys do that a reconcile stores (`Made`, `created_objects_fit`).
-/

namespace WarmPool

/-- The key of a status, if there is one, completes the name of a cache. -/
def RequirementStatus.KeyFits (s : RequirementStatus) : Prop :=
  ∀ key, s.key = some key → Cache.Names key

/-- A specification that passes has a template that does, and a duration text that is one. -/
theorem RequirementSpec.parts_of_validate {s : RequirementSpec} (h : s.validate = .ok ()) :
    s.template.validate = .ok () ∧
      ∀ text, s.keepAliveDuration? = some text → (Duration.parse? text).isSome := by
  obtain ⟨u, htemplate, h⟩ := exists_of_bind_eq_ok h
  refine ⟨htemplate, fun text htext => ?_⟩
  rw [htext] at h
  dsimp only at h
  split at h
  · assumption
  · cases h

namespace Reconcile

variable {settings : Settings} {occasion : Occasion} {r : Requirement} {past : List Answered}
  {key : String} {m : Metadata}

/-! ### What an object has to be -/

/-- The key by which a reconcile lists operations: that of the template once none is sought. -/
def listingKey (r : Requirement) : String :=
  if r.known.phase = .operating then r.spec.template.key else soughtKey r r.known

/-- An object holds the template of a requirement, and is labelled as what is listed by a key. -/
structure Serves (r : Requirement) (key : String) (m : Metadata) (template : Template) : Prop where
  same : template = r.spec.template
  valid : template.validate = .ok ()
  labelled : (m.labels.bind (·.get? keyLabel)) = some key
  listed : ∀ (c : Cluster) (namespaceName : String) (op : Operation),
    op ∈ c.listOperations namespaceName key ↔
      op ∈ c.operations ∧ op.metadata.namespaceName = some namespaceName ∧
        (op.metadata.labels.bind (·.get? keyLabel)) = m.labels.bind (·.get? keyLabel)

/-- The name is a DNS label, and the values of labels are short enough. -/
structure Wellnamed (m : Metadata) : Prop where
  name : ∃ name, m.name = some name ∧ Label.fault? name = none
  labels : ∀ labels, m.labels = some labels →
    ∀ entry ∈ labels.entries, entry.2.utf8ByteSize ≤ Label.maxLength

/-- The one owner is the requirement, which controls. -/
def OwnedBy (r : Requirement) (m : Metadata) : Prop :=
  ∃ owner uid, m.ownerReferences = some [owner] ∧ owner.isController = true ∧
    owner.uid = uid ∧ r.metadata.uid = some uid

/-- What a reconcile makes, lists by and stores. -/
def Made (r : Requirement) : List Answered → Call → Prop
  | _, .createCache cache =>
    Serves r (listingKey r) cache.metadata cache.spec.template ∧
      (Duration.parse? cache.spec.keepAliveDuration).isSome ∧
      (Wellnamed cache.metadata ↔ r.known.KeyFits)
  | _, .createOperation op =>
    Serves r (listingKey r) op.metadata op.spec ∧ OwnedBy r op.metadata ∧ Wellnamed op.metadata
  | _, .listOperations key => key = listingKey r
  | _, .patchStatus _ s =>
    (r.known.KeyFits → s.KeyFits) ∧
      (AdvancesFrom r .cacheChecking → s.key = some (listingKey r))
  | _, _ => True

/-! ### Keys -/

theorem listingKey_of_searching (h : r.known.phase = .cacheChecking) :
    listingKey r = soughtKey r r.known := by
  unfold listingKey
  rw [h]
  exact if_neg (by decide)

theorem listingKey_of_operating (h : r.known.phase = .operating) :
    listingKey r = r.spec.template.key := if_pos h

/-- The key that is sought completes a name unless the one that is stored does not. -/
theorem names_soughtKey_iff : Cache.Names (soughtKey r r.known) ↔ r.known.KeyFits := by
  unfold RequirementStatus.KeyFits soughtKey
  cases r.known.key with
  | none => exact ⟨fun _ key hkey => (nomatch hkey), fun _ => Cache.names_key _⟩
  | some stored =>
    constructor
    · rintro h key ⟨⟩
      exact h
    · intro h
      exact h stored rfl

/-! ### Labels -/

theorem serves_of_label {template : Template} (htemplate : template = r.spec.template)
    (hvalid : r.spec.validate = .ok ())
    (hlabel : m.labels.bind (·.get? keyLabel) = some key) : Serves r key m template := by
  refine ⟨htemplate, ?_, hlabel, fun c namespaceName op => ?_⟩
  · rw [htemplate]
    exact (RequirementSpec.parts_of_validate hvalid).1
  · unfold Cluster.listOperations Operation.hasLabel
    rw [List.mem_filter, hlabel]
    simp

/-- The values of the labels of an operation are its key and a name that is not too long. -/
theorem length_newLabels (hkey : key.utf8ByteSize ≤ Label.maxLength) :
    ∀ entry ∈ (newLabels r key).entries, entry.2.utf8ByteSize ≤ Label.maxLength := by
  have hfirst : ∀ entry ∈ (StringMap.ofList [(keyLabel, key)]).entries,
      entry.2.utf8ByteSize ≤ Label.maxLength := by
    intro entry hentry
    obtain rfl : entry = (keyLabel, key) := List.mem_singleton.1 hentry
    exact hkey
  intro entry hentry
  unfold newLabels at hentry
  split at hentry
  · next hname =>
    rcases StringMap.mem_insertEntry hentry with rfl | hentry
    · exact hname
    · exact hfirst entry hentry
  · exact hfirst entry hentry

/-! ### What is made -/

theorem wellnamed_newCache_iff :
    Wellnamed (newCache settings r key).metadata ↔ Cache.Names key := by
  constructor
  · rintro ⟨⟨name, hname, hlabel⟩, -⟩
    cases hname
    exact hlabel
  · intro hkey
    refine ⟨⟨_, rfl, hkey⟩, ?_⟩
    rintro labels ⟨⟩ entry hentry
    obtain rfl : entry = (keyLabel, key) := List.mem_singleton.1 hentry
    exact hkey.utf8ByteSize_le

/-- The duration of a cache is that of the valid specification, or the default. -/
theorem newCache_keepAlive (hvalid : r.spec.validate = .ok ())
    (hdefault : (Duration.parse? settings.defaultKeepAliveDuration).isSome) :
    (Duration.parse? (newCache settings r key).spec.keepAliveDuration).isSome := by
  have hgiven := (RequirementSpec.parts_of_validate hvalid).2
  unfold RequirementSpec.keepAliveDuration? at hgiven
  show (Duration.parse? ((r.spec.cacheSpec.getD {}).keepAliveDuration.getD
    settings.defaultKeepAliveDuration)).isSome
  -- The duration text may be missing with the whole sizing or by itself.
  cases hsizing : r.spec.cacheSpec with
  | none => exact hdefault
  | some sizing =>
    cases htext : sizing.keepAliveDuration with
    | none =>
      rw [Option.getD_some, htext]
      exact hdefault
    | some text =>
      rw [Option.getD_some, htext]
      exact hgiven text (by rw [hsizing, Option.bind_some, htext])

theorem wellnamed_newOperation (uid : String) :
    Wellnamed (newOperation r r.spec.template.key uid occasion.suffixText).metadata := by
  refine ⟨⟨_, rfl, fault?_operationName _ _⟩, ?_⟩
  rintro labels ⟨⟩
  exact length_newLabels (Cache.names_key _).utf8ByteSize_le

/-! ### The moves of a reconcile -/

theorem Move.made_operation {op : Operation} (h : Move occasion r past (.createOperation op)) :
    Made r past (.createOperation op) := by
  obtain ⟨⟨-, hvalid, hphase⟩, -⟩ := h.createOperation_past
  obtain ⟨-, uid, huid, rfl⟩ := h.createOperation_cases
  refine ⟨?_, ⟨_, uid, rfl, rfl, rfl, huid⟩, wellnamed_newOperation uid⟩
  rw [listingKey_of_operating hphase]
  exact serves_of_label rfl hvalid (get?_newLabels r _)

theorem Move.made_cache {cache : Cache} (h : Move occasion r past (.createCache cache))
    (hcache : cache = newCache settings r (soughtKey r r.known))
    (hdefault : (Duration.parse? settings.defaultKeepAliveDuration).isSome) :
    Made r past (.createCache cache) := by
  obtain ⟨⟨-, hvalid, hphase⟩, -⟩ := h.createCache_cases
  subst hcache
  refine ⟨?_, newCache_keepAlive hvalid hdefault,
    wellnamed_newCache_iff.trans names_soughtKey_iff⟩
  rw [listingKey_of_searching hphase]
  exact serves_of_label rfl hvalid (Cache.bears_newCache settings r _).2

theorem Move.made_list (h : Move occasion r past (.listOperations key)) :
    Made r past (.listOperations key) := by
  cases h with
  | listPool h _ => exact (listingKey_of_searching h.2.2).symm
  | listOwn h => exact (listingKey_of_operating h.2.2).symm
  | listHeld h hkey =>
    -- What is released was held for the key that is stored.
    have hphase : r.known.phase ≠ .operating := by
      intro hphase
      rcases h.2.2 with h | h
      · cases hphase.symm.trans h
      · cases hphase.symm.trans h
    show key = ite _ _ _
    rw [if_neg hphase]
    unfold soughtKey
    rw [hkey]
    rfl

/-- A report stores the key that was stored, or that of the template. -/
theorem Reports.keyFits {s : RequirementStatus} (h : Reports occasion r past s)
    (hkey : r.known.KeyFits) : s.KeyFits := by
  intro key hstored
  rcases h.key_cases with hsame | ⟨htemplate, -⟩
  · exact hkey key (hsame.symm.trans hstored)
  · cases htemplate.symm.trans hstored
    exact Cache.names_key _

/-- A search stores the key by which it lists. -/
theorem Writes.key_of_searching {s : RequirementStatus} (h : Writes r past s)
    (hfrom : AdvancesFrom r .cacheChecking) : s.key = some (listingKey r) := by
  cases h with
  | deletion hdeleting _ _ => cases hdeleting.symm.trans hfrom.1
  | invalid _ hspec _ _ => exact absurd hfrom.2.1 hspec
  | taken h _ _ _ => cases h.2.2.symm.trans hfrom.2.2
  | searched _ _ hkey =>
    rw [listingKey_of_searching hfrom.2.2]
    exact hkey
  | followed h _ _ =>
    rcases h with h | h
    · cases h.2.2.symm.trans hfrom.2.2
    · cases h.2.2.symm.trans hfrom.2.2

theorem Move.made_status {name : String} {s : RequirementStatus}
    (h : Move occasion r past (.patchStatus name s))
    (hgrounds : Grounds occasion r past (.patchStatus name s)) :
    Made r past (.patchStatus name s) := by
  obtain ⟨-, hwrites, -, -⟩ := h.patchStatus_cases
  obtain ⟨s', rfl, hreports⟩ := hgrounds
  exact ⟨hreports.keyFits, hwrites.key_of_searching⟩

/--
Whatever a reconcile is answered and draws, what it makes holds the template of the requirement,
which is valid, and is labelled with the key by which operations are listed. An operation is
controlled by the requirement alone, and a cache lasts for a duration that can be read, if the
default duration is one that the command line takes. The names of operations are DNS labels and the
values of their labels are not too long. For caches this is so exactly if the key that is stored, if
any, completes the name of a cache, which a key does that a reconcile stores in place of it.
-/
theorem created_objects_fit {env : Environment} {words : List String} {a : CommandLine.Arguments}
    (ha : CommandLine.parse env words = .ok a) (settings : Settings)
    (hdefault : settings.defaultKeepAliveDuration = a.settings.defaultKeepAliveDuration)
    (occasion : Occasion) (r : Requirement) :
    (plan settings occasion r).Obeys (Made r) [] := by
  have hduration : (Duration.parse? settings.defaultKeepAliveDuration).isSome := by
    rw [hdefault]
    exact (CommandLine.parse_fits ha).2
  have hplan := ((plan_obeys settings occasion r).and (plan_makesSought settings occasion r)).and
    (plan_grounds settings occasion r)
  refine hplan.mono fun past call _ hcall => ?_
  obtain ⟨⟨hmove, hsought⟩, hgrounds⟩ := hcall
  -- Any other call neither makes nor lists nor stores anything.
  cases call with
  | createCache cache => exact hmove.made_cache (hsought cache rfl) hduration
  | createOperation op => exact hmove.made_operation
  | listOperations key => exact hmove.made_list
  | patchStatus name s => exact hmove.made_status hgrounds
  | _ => exact trivial

/-- What holds of every call of a search holds of the cache that it makes. -/
theorem ok_newCache_of_obeys {ok : List Answered → Call → Prop} {uid : String}
    (h : (plan settings occasion r).Obeys ok []) (hfrom : AdvancesFrom r .cacheChecking)
    (hplace : r.metadata.namespaceName.isSome) (huid : r.metadata.uid = some uid) :
    ∃ past, ok past (.createCache (newCache settings r (soughtKey r r.known))) := by
  obtain ⟨next, next', hplan, hnext⟩ := plan_makes_cache settings occasion hfrom hplace huid
  rw [hplan] at h
  have hrest := h.2 (.ok none)
  rw [hnext] at hrest
  exact ⟨_, hrest.1⟩

/-- What an operator is asked for that is given a default duration. -/
def longLasting : CommandLine.Arguments := { keepAliveDuration := "1h30m" }

theorem created_objects_fit_sample :
    CommandLine.parse .empty ["--default-keep-alive-duration", "1h30m"] = .ok longLasting ∧
      (plan longLasting.settings sampleOccasion (searchingRequirement none)).Obeys
        (Made (searchingRequirement none)) [] ∧
      Wellnamed (newCache longLasting.settings (searchingRequirement none)
        (soughtKey (searchingRequirement none) (searchingRequirement none).known)).metadata := by
  have ha : CommandLine.parse .empty ["--default-keep-alive-duration", "1h30m"] =
      .ok longLasting := by decide
  have hfits :=
    created_objects_fit ha longLasting.settings rfl sampleOccasion (searchingRequirement none)
  obtain ⟨past, -, -, hwellnamed⟩ := ok_newCache_of_obeys hfits
    ⟨rfl, validate_sampleRequirement, rfl⟩ rfl rfl
  exact ⟨ha, hfits, hwellnamed.2 fun key hkey => nomatch hkey⟩

/-- A requirement whose stored key makes no name has a valid specification all the same. -/
theorem ill_named_cache :
    CommandLine.parse .empty [] = .ok {} ∧
      (searchingRequirement (some "Not A Label")).spec.validate = .ok () ∧
      ¬(plan ({} : CommandLine.Arguments).settings sampleOccasion
          (searchingRequirement (some "Not A Label"))).Obeys
        (fun _ call => ∀ cache, call = .createCache cache →
          ∃ name, cache.metadata.name = some name ∧ Label.fault? name = none) [] := by
  refine ⟨by decide, validate_sampleRequirement, fun h => ?_⟩
  obtain ⟨past, hnamed⟩ := ok_newCache_of_obeys h ⟨rfl, validate_sampleRequirement, rfl⟩ rfl rfl
  obtain ⟨name, hname, hlabel⟩ := hnamed _ rfl
  have hbad : Label.fault? "cache-Not A Label" = some .badCharacter := by decide
  cases hname
  cases hbad.symm.trans hlabel

end Reconcile

end WarmPool
