import WarmPool.Proofs.Course
import WarmPool.Proofs.CrashConsistency
import WarmPool.Proofs.Replies

/-!
# The order of a deletion

What a reconcile does before it takes the finalizer from a deleted requirement, whatever it is
answered. `Retires` has one case for each call of a deletion, with the calls answered before it, in
their order, and `delete_obeys_retires` shows that there are no others. The finalizer comes last:
after every operation that was listed as held has been handed back, and after the status says that
the requirement is deleted (`release_precedes_removal`).
-/

namespace WarmPool

/-- What is in the second of two lists in a relation is related to something in the first. -/
theorem exists_of_forall₂ {α β : Type} {R : α → β → Prop} {l : List α} {m : List β} {b : β}
    (h : List.Forall₂ R l m) (hb : b ∈ m) : ∃ a ∈ l, R a b := by
  induction h with
  | nil => cases hb
  | cons hfirst _ ih =>
    rcases List.mem_cons.1 hb with rfl | hb
    · exact ⟨_, List.mem_cons_self, hfirst⟩
    · obtain ⟨a, ha, hab⟩ := ih hb
      exact ⟨a, List.mem_cons_of_mem _ ha, hab⟩

namespace Reconcile

/-! ### Handing over -/

/-- This is the answered call that hands the operation back, as it was listed. -/
def HandsBack (uid : String) (op : Operation) (a : Answered) : Prop :=
  ∃ version, op.metadata.resourceVersion = some version ∧
    a = ⟨.patchOwners op.name version (op.metadata.withoutOwner uid), .ok ()⟩

/-- These are the answered calls that hand back all that a requirement holds under its key. -/
inductive HandsOver (r : Requirement) : List Answered → Prop
  /-- Without a key nothing is held. -/
  | keyless (hkey : r.known.key = none) : HandsOver r []
  /-- What is held of the operations listed is handed back in order, and nothing else is. -/
  | listed {key uid : String} {operations : List Operation} {patches : List Answered}
      (hkey : r.known.key = some key) (huid : r.metadata.uid = some uid)
      (hpatches : List.Forall₂ (HandsBack uid) (operations.filter (isHeldBy uid)) patches) :
      HandsOver r (⟨.listOperations key, .ok operations⟩ :: patches)

/-- The status of a requirement that has handed over everything. -/
def deletedStatus (r : Requirement) : RequirementStatus :=
  observed r { r.known with phase := .deleted }

/-- These are the answered calls, if any, by which the status comes to say `Deleted`. -/
inductive SaysDeleted (r : Requirement) : List Answered → Prop
  | already (h : r.status = some (deletedStatus r)) : SaysDeleted r []
  | written : SaysDeleted r [⟨.patchStatus r.name (deletedStatus r), .ok ()⟩]

/-- The calls of a deletion, each after the answered calls, in order, that lead to it. -/
inductive Retires (r : Requirement) : List Answered → Call → Prop
  | announce (s : RequirementStatus) : Retires r [] (.patchStatus r.name s)
  | list (key : String) : Retires r [] (.listOperations key)
  | handBack {key uid version : String} {operations done left : List Operation} {op : Operation}
      {patches : List Answered} (hsplit : operations.filter (isHeldBy uid) = done ++ op :: left)
      (hpatches : List.Forall₂ (HandsBack uid) done patches) :
      Retires r (⟨.listOperations key, .ok operations⟩ :: patches)
        (.patchOwners op.name version (op.metadata.withoutOwner uid))
  | settle {handed : List Answered} (h : HandsOver r handed) :
      Retires r handed (.patchStatus r.name (deletedStatus r))
  | remove {handed written : List Answered} (h : HandsOver r handed) (h' : SaysDeleted r written) :
      Retires r (handed ++ written) (.removeFinalizer r.name requirementFinalizer)

variable {settings : Settings} {occasion : Occasion} {r : Requirement}
  {answers before after past : List Answered} {a : Answered} {call : Call}

/-! ### A deletion makes these calls -/

theorem releaseAll_retires {namespaceName key uid : String} {operations rest done : List Operation}
    {patches : List Answered} (hkey : r.known.key = some key) (huid : r.metadata.uid = some uid)
    (hsplit : operations.filter (isHeldBy uid) = done ++ rest.filter (isHeldBy uid))
    (hpatches : List.Forall₂ (HandsBack uid) done patches)
    (hpast : past.reverse = ⟨.listOperations key, .ok operations⟩ :: patches) :
    (releaseAll namespaceName uid rest).Meets (fun past => Retires r past.reverse)
      (fun past _ => HandsOver r past.reverse) past := by
  -- By induction on what is still to be gone through; all that is held of what comes before it has
  -- been handed back, in order.
  induction rest generalizing past done patches with
  | nil =>
    rw [List.filter_nil, List.append_nil] at hsplit
    show HandsOver r past.reverse
    rw [hpast]
    exact .listed hkey huid (hsplit ▸ hpatches)
  | cons op rest ih =>
    unfold releaseAll
    by_cases hheld : isHeldBy uid op = true
    · rw [List.filter_cons_of_pos hheld] at hsplit
      rw [if_pos hheld]
      have hrelease : (release namespaceName uid op).Meets (fun past => Retires r past.reverse)
          (fun past _ => ∃ a, HandsBack uid op a ∧
            past.reverse = ⟨.listOperations key, .ok operations⟩ :: (patches ++ [a])) past := by
        unfold release
        refine Plan.Meets.orFail_bind fun version hversion => Plan.Meets.ask_bind ?_ fun _ => ?_
        · rw [hpast]
          exact .handBack hsplit hpatches
        · refine ⟨_, ⟨version, hversion, rfl⟩, ?_⟩
          rw [List.reverse_cons, hpast]
          rfl
      refine hrelease.bind fun past' _ hreleased => ?_
      obtain ⟨a, ha, hpast'⟩ := hreleased
      refine ih (hsplit.trans (List.append_cons _ _ _)) ?_ hpast'
      exact List.rel_append hpatches (.cons ha .nil)
    · rw [List.filter_cons_of_neg hheld] at hsplit
      rw [if_neg hheld]
      exact ih hsplit hpatches hpast

theorem releaseClaims_retires :
    (releaseClaims r r.known).Meets (fun past => Retires r past.reverse)
      (fun past _ => HandsOver r past.reverse) [] := by
  unfold releaseClaims
  cases hkey : r.known.key with
  | none => exact .keyless hkey
  | some key =>
    refine Plan.Meets.orFail_bind fun uid huid => ?_
    refine Plan.Meets.ask_bind (.list key) fun operations => ?_
    exact releaseAll_retires hkey huid (List.nil_append _).symm .nil rfl

theorem delete_obeys_retires :
    (delete r r.known).Obeys (fun past => Retires r past.reverse) [] := by
  unfold delete
  split
  · exact trivial
  · split
    · refine releaseClaims_retires.bind fun past _ hhanded => ?_
      have hcommit : (commit r { r.known with phase := .deleted }).Meets
          (fun past => Retires r past.reverse)
          (fun past' _ => ∃ written, SaysDeleted r written ∧
            past'.reverse = past.reverse ++ written) past := by
        unfold commit
        split
        · rename_i hsame
          exact ⟨[], .already hsame, (List.append_nil _).symm⟩
        · exact Plan.Meets.ask_bind (.settle hhanded) fun _ => ⟨_, .written, List.reverse_cons⟩
      refine hcommit.bind fun past' _ hpast' => ?_
      obtain ⟨written, hwritten, hpast'⟩ := hpast'
      refine Plan.Meets.ask_bind ?_ fun _ => trivial
      rw [hpast']
      exact .remove hhanded hwritten
    · have hcommit : (commit r { r.known with phase := .deleting }).Obeys
          (fun past => Retires r past.reverse) [] := by
        unfold commit
        split
        · exact trivial
        · exact Plan.Meets.ask_bind (.announce _) fun _ => trivial
      exact hcommit.bind fun _ _ _ => trivial

/-- A reconcile of a deleted requirement makes no calls but those of a deletion. -/
theorem plan_retires (h : r.isDeleting = true) :
    (plan settings occasion r).Obeys (fun past => Retires r past.reverse) [] := by
  unfold plan
  show Plan.Obeys _ _ (ite _ _ (ite _ _ _))
  split
  · exact trivial
  · exact delete_obeys_retires

/-! ### What comes after what -/

theorem writesRequirement_of_handsBack {uid : String} {operations : List Operation}
    (h : List.Forall₂ (HandsBack uid) operations answers) (ha : a ∈ answers) :
    a.call.writesRequirement = false := by
  obtain ⟨op, -, version, -, rfl⟩ := exists_of_forall₂ h ha
  rfl

/-- Nothing is written to a requirement before all is handed over. -/
theorem HandsOver.writesRequirement (h : HandsOver r answers) (ha : a ∈ answers) :
    a.call.writesRequirement = false := by
  cases h with
  | keyless _ => cases ha
  | listed _ _ hpatches =>
    rcases List.mem_cons.1 ha with rfl | ha
    · rfl
    · exact writesRequirement_of_handsBack hpatches ha

/-- What leads to a call of a deletion other than the removal of the finalizer writes nothing. -/
theorem Retires.writesRequirement (h : Retires r before call)
    (hcall : ∀ name finalizer, call ≠ .removeFinalizer name finalizer) (ha : a ∈ before) :
    a.call.writesRequirement = false := by
  cases h with
  | announce _ => cases ha
  | list _ => cases ha
  | handBack _ hpatches =>
    rcases List.mem_cons.1 ha with rfl | ha
    · rfl
    · exact writesRequirement_of_handsBack hpatches ha
  | settle h => exact h.writesRequirement ha
  | remove _ _ => exact absurd rfl (hcall _ _)

theorem Retires.removeFinalizer_cases {name finalizer : String}
    (h : Retires r before (.removeFinalizer name finalizer)) :
    name = r.name ∧ finalizer = requirementFinalizer ∧
      ∃ handed written, before = handed ++ written ∧ HandsOver r handed ∧
        SaysDeleted r written := by
  cases h with
  | remove h h' => exact ⟨rfl, rfl, _, _, rfl, h, h'⟩

/-- The finalizer has not been taken before any call of a deletion. -/
theorem Retires.not_removed (h : Retires r before call) (ha : a ∈ before)
    (name finalizer : String) : a.call ≠ .removeFinalizer name finalizer := by
  intro hremoved
  have hwrites : a.call.writesRequirement = true := by rw [hremoved]; rfl
  by_cases hcall : ∃ name finalizer, call = .removeFinalizer name finalizer
  · obtain ⟨_, _, rfl⟩ := hcall
    obtain ⟨-, -, handed, written, rfl, hhanded, hwritten⟩ := h.removeFinalizer_cases
    rcases List.mem_append.1 ha with ha | ha
    · rw [hhanded.writesRequirement ha] at hwrites
      cases hwrites
    · cases hwritten with
      | already _ => cases ha
      | written =>
        rw [List.mem_singleton.1 ha] at hremoved
        cases hremoved
  · rw [h.writesRequirement (fun _ _ hsame => hcall ⟨_, _, hsame⟩) ha] at hwrites
    cases hwrites

/--
The finalizer of a deleted requirement is taken in the last call of a reconcile, whatever came back
before: the reconcile has handed back all the operations that were listed under the key and held,
each as it was listed, has patched no other, and the status says that the requirement is deleted.
-/
theorem release_precedes_removal (settings : Settings) (occasion : Occasion) (r : Requirement)
    {name finalizer : String} {reply : Except Error Unit} {rest : Plan Action}
    (h : (plan settings occasion r).ComesTo
      (before ++ ⟨.removeFinalizer name finalizer, reply⟩ :: after) rest) :
    name = r.name ∧ finalizer = requirementFinalizer ∧ r.isDeleting = true ∧
      (r.known.phase = .deleting ∨ r.known.phase = .deleted) ∧ after = [] ∧
      ∃ handed written, before = handed ++ written ∧ HandsOver r handed ∧
        SaysDeleted r written := by
  obtain ⟨-, ⟨hdeleting, -, hphase⟩, -⟩ :=
    ((plan_obeys settings occasion r).of_comesTo h).removeFinalizer_cases
  have hretires : (plan settings occasion r).Obeys (fun past => Retires r past.reverse) [] :=
    plan_retires hdeleting
  have hremoval := hretires.of_comesTo h
  rw [List.reverse_reverse] at hremoval
  obtain ⟨hname, hfinalizer, hbefore⟩ := hremoval.removeFinalizer_cases
  refine ⟨hname, hfinalizer, hdeleting, hphase, ?_, hbefore⟩
  -- A call that came after would have the removal before it.
  cases after with
  | nil => rfl
  | cons next after =>
    rw [List.append_cons] at h
    have hnext := hretires.of_comesTo h
    exact absurd rfl (hnext.not_removed (a := ⟨.removeFinalizer name finalizer, reply⟩)
      (by simp) name finalizer)

/-- The sample as it is deleted, with its key and with its deletion announced. -/
def retiringRequirement : Requirement :=
  { (searchingRequirement (some "key")).deletedAt sampleOccasion.now with
    status := some { phase := .deleting, key := some "key" } }

/-- The operation of the pool as the sample has claimed it. -/
def claimedOperation : Operation :=
  { warmOperation "dev" "key" with
    metadata :=
      { (warmOperation "dev" "key").metadata with
        ownerReferences := some ((warmOperation "dev" "key").metadata.withOwner
          (holderReference sampleRequirement "sample" false)) } }

/-- The sample hands back the operation of the pool, with its owners as they were there. -/
theorem release_precedes_removal_sample : ∃ handed written rest,
    (plan {} sampleOccasion retiringRequirement).ComesTo
      ((handed ++ written) ++ [⟨.removeFinalizer "sample" requirementFinalizer, .ok ()⟩]) rest ∧
    HandsOver retiringRequirement handed ∧ SaysDeleted retiringRequirement written ∧
    ⟨.patchOwners "warm" (natText 1) (warmOperation "dev" "key").metadata.owners, .ok ()⟩ ∈
      handed ++ written := by
  have hrun : (plan {} sampleOccasion retiringRequirement).ComesTo
      ([⟨.listOperations "key", .ok [claimedOperation]⟩,
        ⟨.patchOwners "warm" (natText 1) (warmOperation "dev" "key").metadata.owners, .ok ()⟩,
        ⟨.patchStatus "sample" (deletedStatus retiringRequirement), .ok ()⟩] ++
        [⟨.removeFinalizer "sample" requirementFinalizer, .ok ()⟩]) (.done (.ok .awaitChange)) := by
    rw [plan_of_isDeleting rfl rfl]
    refine .call _ (.call _ ?_)
    refine .measure (.event ?_)
    exact .call _ (.call _ .here)
  obtain ⟨-, -, -, -, -, handed, written, hbefore, hhanded, hwritten⟩ :=
    release_precedes_removal {} sampleOccasion retiringRequirement hrun
  refine ⟨handed, written, _, hbefore ▸ hrun, hhanded, hwritten, hbefore ▸ ?_⟩
  simp

end Reconcile

end WarmPool
