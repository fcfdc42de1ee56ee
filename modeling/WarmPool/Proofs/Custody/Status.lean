import WarmPool.Proofs.Custody.Own

/-!
# A requirement's own status writes

A status that a reconcile writes is one for which the requirement still answers: it stays sound
(`Claimant.Informs.sound_withStatus`) and goes on guarding what it holds
(`Claimant.Informs.guards_withStatus`), since the key that is stored is never lost. The reconcile
itself can rely on as much as before (`Claimant.Informs.written`).
-/

namespace WarmPool

open Reconcile

namespace Claimant

variable {x : Claimant} {c c' : Cluster} {t : Task} {r : Requirement} {s : RequirementStatus}
  {op : Operation}

theorem Informs.known (h : x.Informs c t) (hr : x.stored? c = some r)
    (hfirst : Unwritten t.past) : r.known = t.requirement.known :=
  Requirement.known_congr (h.status hfirst r hr)

/-- A requirement that is advanced has a finalizer once its reconcile read or added one. -/
theorem Informs.hasFinalizer (h : x.Informs c t) (hr : x.stored? c = some r)
    (hdeleting : t.requirement.isDeleting = false)
    (hfinalizer : t.requirement.hasFinalizer = true ∨
      ⟨.addFinalizer t.requirement.name requirementFinalizer, .ok ()⟩ ∈ t.past) :
    r.hasFinalizer = true := by
  obtain ⟨r', hr', hhas⟩ := h.finalizer hdeleting hfinalizer
  rw [hr, Option.some.injEq] at hr'
  rwa [hr']

/-- A requirement stays sound under the statuses that its reconcile writes. -/
theorem Informs.sound_withStatus (h : x.Informs c t) (hr : x.stored? c = some r)
    (hrTimely : r.Timely) (hs : s.Timely) (hwrites : Writes t.requirement t.past s) :
    (r.withStatus s).Sound := by
  intro hphase
  rw [Requirement.withStatus_known hrTimely hs, Requirement.withStatus_spec hrTimely hs,
    RequirementStatus.laidOver_phase] at hphase
  rw [Requirement.withStatus_hasFinalizer hrTimely hs, Requirement.withStatus_spec hrTimely hs,
    Requirement.withStatus_isDeleting hrTimely hs, Requirement.withStatus_known hrTimely hs,
    RequirementStatus.laidOver_key]
  obtain ⟨hspec, hdeletingSame⟩ := h.same r hr
  rw [hspec] at hphase ⊢
  have hkeySome {k : Option String} (hk : k.isSome) : (k.or r.known.key).isSome := by
    obtain ⟨key, rfl⟩ := Option.isSome_iff_exists.1 hk
    rfl
  -- By where the reconcile stands: the phases of a deletion ask for nothing, and in the others the
  -- key is one that was just written or is kept.
  cases hwrites with
  | deletion _ hs' _ =>
    rcases hs' with hs' | hs' <;> simp [hs'] at hphase
  | invalid hdeleting hinvalid hsame hkey =>
    rw [hsame] at hphase
    obtain ⟨hfinalizer, -⟩ := h.sound hphase
    exact ⟨h.hasFinalizer hr hdeleting (.inl hfinalizer), fun hvalid => absurd hvalid hinvalid⟩
  | taken hadvances hfinalizer hcache hplain =>
    refine ⟨h.hasFinalizer hr hadvances.1 hfinalizer, fun _ _ => hkeySome ?_⟩
    by_cases hcached : t.requirement.spec.enableCache = true
    · exact (hcache hcached).2
    · have hoperating := hplain (by simpa using hcached)
      rcases hphase with hphase | ⟨hcached', -⟩
      · rw [hoperating] at hphase
        cases hphase
      · exact absurd hcached' hcached
  | searched hadvances _ hkey =>
    obtain ⟨hfinalizer, -⟩ := h.sound (.inl hadvances.2.2)
    exact ⟨h.hasFinalizer hr hadvances.1 (.inl hfinalizer), fun _ _ => hkeySome (by rw [hkey]; rfl)⟩
  | followed hadvances hnext hkey =>
    have hcached : t.requirement.spec.enableCache = true := by
      rcases hphase with hphase | ⟨hcached, -⟩
      · rcases hnext with hnext | hnext | ⟨-, hcached⟩
        · rw [hnext] at hphase
          cases hphase
        · rw [hnext] at hphase
          cases hphase
        · exact hcached
      · exact hcached
    obtain ⟨hdeleting, hvalid, hbefore⟩ : t.requirement.isDeleting = false ∧
        t.requirement.spec.validate = .ok () ∧
        (t.requirement.known.phase = .operating ∨ t.requirement.known.phase = .ready) := by
      rcases hadvances with ⟨hdeleting, hvalid, hbefore⟩ | ⟨hdeleting, hvalid, hbefore⟩
      · exact ⟨hdeleting, hvalid, .inl hbefore⟩
      · exact ⟨hdeleting, hvalid, .inr hbefore⟩
    obtain ⟨hfinalizer, hkeyBefore⟩ := h.sound (.inr ⟨hcached, hbefore⟩)
    refine ⟨h.hasFinalizer hr hdeleting (.inl hfinalizer), fun _ _ => hkeySome ?_⟩
    rw [hkey]
    exact hkeyBefore hvalid hdeleting

/-- A requirement goes on guarding what it holds under the statuses that its reconcile writes. -/
theorem Informs.guards_withStatus (h : x.Informs c t) (hr : x.stored? c = some r)
    (hrTimely : r.Timely) (hs : s.Timely) (hfirst : Unwritten t.past)
    (hwrites : Writes t.requirement t.past s) (hguards : x.Guards r op) :
    x.Guards (r.withStatus s) op := by
  obtain ⟨key, hkey, hlabel⟩ := hguards.key
  have hknown := h.known hr hfirst
  -- Whatever is written, the key of what is held stays stored: it is written again or left alone.
  have hstay (hsame : s.key = t.requirement.known.key) : s.key.or r.known.key = some key := by
    rw [hsame, ← hknown, hkey]
    rfl
  obtain ⟨hphase, hstored⟩ : s.phase ≠ .initial ∧ s.key.or r.known.key = some key := by
    have hbefore := hguards.phase
    rw [hknown] at hbefore
    cases hwrites with
    | deletion _ hs' hsame =>
      refine ⟨?_, hstay hsame⟩
      rcases hs' with hs' | hs' <;> simp [hs']
    | invalid _ _ hs' hsame =>
      rw [hs']
      exact ⟨hbefore, hstay hsame⟩
    | taken hadvances _ _ _ => exact absurd hadvances.2.2 hbefore
    | searched hadvances hs' hsought =>
      refine ⟨?_, ?_⟩
      · rcases hs' with hs' | hs' <;> simp [hs']
      · rw [hsought, ← hknown]
        unfold soughtKey
        rw [hkey]
        rfl
    | followed _ hs' hsame =>
      refine ⟨?_, hstay hsame⟩
      rcases hs' with hs' | hs' | ⟨hs', -⟩ <;> simp [hs']
  refine ⟨?_, ?_, ?_, ⟨key, ?_, hlabel⟩, hguards.namespaceName, hguards.advisory⟩
  · rw [Requirement.withStatus_hasFinalizer hrTimely hs]
    exact hguards.finalizer
  · rw [Requirement.withStatus_spec hrTimely hs]
    exact hguards.spec
  · rw [Requirement.withStatus_known hrTimely hs]
    exact hphase
  · rw [Requirement.withStatus_known hrTimely hs]
    exact hstored

/-- What a reconcile relies on survives its status write. -/
theorem Informs.written (h : x.Informs c t)
    (hstored : x.stored? c' = (x.stored? c).map (·.withStatus s))
    (hoperations : c'.operations = c.operations)
    (htimely : ∀ r, x.stored? c = some r → r.Timely) (hs : s.Timely)
    (hwrites : Writes t.requirement t.past s) {next : Except Error Unit → Plan Action}
    (hrest : t.rest = .call t.namespaceName (.patchStatus t.requirement.name s) next)
    (reply : Except Error Unit) :
    x.Informs c' (t.answered hrest reply) := by
  -- The answers to calls of other kinds are those from before.
  have hpast {a : Answered} (hmem : a ∈ (t.answered hrest reply).past)
      (hcall : ∀ name status, a.call ≠ .patchStatus name status) : a ∈ t.past := by
    rcases List.mem_cons.1 hmem with rfl | hmem
    · exact absurd rfl (hcall _ _)
    · exact hmem
  refine ⟨h.uid, h.sound, fun r' hr' => ?_, fun hunwritten => ?_,
    fun hdeleting hfinalizer => ?_, fun hreleases r' hr' => ?_,
    fun hadvances key operations hlist hnone hpatch op hop => ?_,
    fun hreleases key operations hlist op hop hclaimed => ?_⟩
  · obtain ⟨r, hr, rfl⟩ := Option.map_eq_some_iff.1 (hstored.symm.trans hr')
    rw [Requirement.withStatus_spec (htimely r hr) hs,
      Requirement.withStatus_isDeleting (htimely r hr) hs]
    exact h.same r hr
  · exact absurd rfl (hunwritten _ List.mem_cons_self t.requirement.name s)
  · obtain ⟨r, hr, hhas⟩ := h.finalizer hdeleting
      (hfinalizer.imp_right fun hmem => hpast hmem fun _ _ => Call.noConfusion)
    refine ⟨r.withStatus s, hstored.trans (congrArg (Option.map _) hr), ?_⟩
    rw [Requirement.withStatus_hasFinalizer (htimely r hr) hs]
    exact hhas
  · obtain ⟨r, hr, rfl⟩ := Option.map_eq_some_iff.1 (hstored.symm.trans hr')
    obtain ⟨-, hkey⟩ := h.releasing hreleases r hr
    obtain ⟨hphase, hsame⟩ := hwrites.of_releases hreleases
    rw [Requirement.withStatus_known (htimely r hr) hs, RequirementStatus.laidOver_phase,
      RequirementStatus.laidOver_key, hkey, hsame]
    exact ⟨hphase, Option.or_self⟩
  · exact h.searched hadvances key operations (hpast hlist fun _ _ => Call.noConfusion)
      hnone (fun a ha => hpatch a (List.mem_cons_of_mem _ ha)) op (hoperations ▸ hop)
  · obtain ⟨seen, hseen, hplace, hheld, hkept⟩ := h.listed hreleases key operations
      (hpast hlist fun _ _ => Call.noConfusion) op (hoperations ▸ hop) hclaimed
    exact ⟨seen, hseen, hplace, hheld, fun version owners hmem =>
      hkept version owners (hpast hmem fun _ _ => Call.noConfusion)⟩

end Claimant

end WarmPool
