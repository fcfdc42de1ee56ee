import WarmPool.Proofs.Removal

/-!
# One status, and nothing after a failure

How the calls of a reconcile stand to one another, and what the failure of one does, under any
replies. The status is written once, after everything else that a reconcile changes but for the
removal of the finalizer; outside of deletion a reconcile makes or claims one object at most. Every
part of a reconcile stops at its first failure (`plan_failStop`), so that no status follows one. All
of this together is `fail_stop`.
-/

namespace WarmPool

namespace Reconcile

/-! ### Kinds of calls -/

namespace Call

/-- Whether a call writes a status. -/
def writesStatus : Call → Bool
  | patchStatus .. => true
  | _ => false

/-- Whether a call takes a finalizer away. -/
def removesFinalizer : Call → Bool
  | removeFinalizer .. => true
  | _ => false

/-- Whether a call makes a cache or an operation, or claims one. -/
def acquires : Call → Bool
  | createCache _ | createOperation _ | patchOwners .. => true
  | _ => false

end Call

variable {settings : Settings} {occasion : Occasion} {r : Requirement}
  {answers past : List Answered} {call : Call}

/-! ### What stands before a change -/

theorem Unwritten.writesStatus (h : Unwritten past) {a : Answered} (ha : a ∈ past) :
    a.call.writesStatus = false := by
  cases hcall : a.call with
  | patchStatus name s => exact absurd hcall (h a ha name s)
  | _ => rfl

/-- A change of a requirement that is kept, or of what is around it, has no status before it. -/
theorem Move.unwritten (h : Move occasion r past call) (hkept : r.isDeleting = false)
    (hchanges : call.isMutation = true) : Unwritten past := by
  have hnot : ¬ Releases r := fun hreleases => absurd hreleases.1 (by simp [hkept])
  cases h with
  | addFinalizer _ _ => exact unwritten_nil
  | write _ hfirst _ => exact hfirst
  | createCache _ _ => exact unwritten_nil.cons fun _ _ => Call.noConfusion
  | claim _ _ _ _ _ =>
    exact (unwritten_nil.cons fun _ _ => Call.noConfusion).cons fun _ _ => Call.noConfusion
  | createOperation _ _ _ _ => exact unwritten_nil.cons fun _ _ => Call.noConfusion
  | release h _ _ _ _ _ => exact absurd h hnot
  | removeFinalizer h _ => exact absurd h hnot
  | getCache _ => cases hchanges
  | listPool _ _ => cases hchanges
  | getOperation _ _ => cases hchanges
  | listOwn _ => cases hchanges
  | listHeld _ _ => cases hchanges

/-- Outside of deletion, what is made or claimed is the first. -/
theorem Move.acquires_first (h : Move occasion r past call) (hkept : r.isDeleting = false)
    (hacquires : call.acquires = true) : ∀ a ∈ past, a.call.acquires = false := by
  cases h with
  | createCache _ _ => simp [Call.acquires]
  | claim _ _ _ _ _ => simp [Call.acquires]
  | createOperation _ _ _ _ => simp [Call.acquires]
  | release h _ _ _ _ _ => exact absurd h.1 (by simp [hkept])
  | _ => cases hacquires

/-- Everything but the removal of the finalizer is changed before the status is written. -/
theorem plan_changes_unwritten (settings : Settings) (occasion : Occasion) (r : Requirement) :
    (plan settings occasion r).Obeys (fun past call => call.isMutation = true →
      call.removesFinalizer = false → ∀ a ∈ past, a.call.writesStatus = false) [] := by
  by_cases hdeleting : r.isDeleting = true
  · refine (plan_retires hdeleting).mono fun past call _ h _ hkept a ha => ?_
    have hwrites : a.call.writesRequirement = false := by
      refine h.writesRequirement ?_ (List.mem_reverse.2 ha)
      rintro name finalizer rfl
      cases hkept
    cases hcall : a.call with
    | patchStatus name s =>
      rw [hcall] at hwrites
      cases hwrites
    | _ => rfl
  · have hkept : r.isDeleting = false := by simpa using hdeleting
    refine (plan_obeys settings occasion r).mono fun past call _ h hchanges _ a ha => ?_
    exact (h.unwritten hkept hchanges).writesStatus ha

/-- Where no two elements are of a kind, one at most is. -/
theorem countP_le_one_of_pairwise {α : Type} {l : List α} {p : α → Bool}
    (h : l.Pairwise fun a b => p a = true → p b = false) : l.countP p ≤ 1 := by
  induction l with
  | nil => exact Nat.zero_le 1
  | cons first rest ih =>
    obtain ⟨hfirst, hrest⟩ := List.pairwise_cons.1 h
    by_cases hp : p first = true
    · have hnone : rest.countP p = 0 :=
        List.countP_eq_zero.2 fun b hb => by simp [hfirst b hb hp]
      rw [List.countP_cons_of_pos hp, hnone]
    · rw [List.countP_cons_of_neg hp]
      exact ih hrest

/-! ### The parts of a reconcile stop at a failure -/

theorem commit_failStop {s : RequirementStatus} : (commit r s).FailStop := by
  unfold commit
  split
  · exact trivial
  · exact Plan.FailStop.ask_bind fun _ => trivial

theorem commitThen_failStop {s : RequirementStatus} {after : Duration} :
    (commitThen r s after).FailStop := commit_failStop.bind fun _ => trivial

theorem takeIn_failStop {s : RequirementStatus} {now : Timestamp} : (takeIn r s now).FailStop := by
  unfold takeIn
  cases hfinalizer : r.hasFinalizer with
  | true => exact commitThen_failStop
  | false => exact Plan.FailStop.ask_bind fun _ => commitThen_failStop

theorem makeCache_failStop {s : RequirementStatus} {key : String} {now : Timestamp} :
    (makeCache settings r s key now).FailStop := by
  unfold makeCache
  refine Plan.FailStop.ask_bind fun created => ?_
  cases created with
  | false => exact commitThen_failStop
  | true => exact commitThen_failStop

/-- A claim that fails counts a conflict, and no more. -/
theorem claim_failStop {s : RequirementStatus} {cache uid : String} {op : Operation}
    {now : Timestamp} : (claim settings r s cache uid op now).FailStop := by
  unfold claim versionOf
  refine Plan.FailStop.orFail_bind fun version => ?_
  refine ⟨fun e => ?_, fun _ => commitThen_failStop⟩
  show Plan.FailsWith e (ite _ _ _)
  split
  · rfl
  · rfl

theorem searchPool_failStop {s : RequirementStatus} {key uid : String} {cache : Cache}
    {now : Timestamp} : (searchPool settings r s key uid cache now).FailStop := by
  unfold searchPool
  refine Plan.FailStop.ask_bind fun operations => ?_
  cases Pool.claimedBy? uid operations with
  | some op => exact commitThen_failStop
  | none =>
    cases Pool.select? cache operations with
    | some op => exact claim_failStop
    | none => exact commitThen_failStop

theorem checkCache_failStop {s : RequirementStatus} {now : Timestamp} :
    (checkCache settings r s now).FailStop := by
  unfold checkCache uidOf
  refine Plan.FailStop.orFail_bind fun uid => Plan.FailStop.ask_bind fun found => ?_
  cases found with
  | some cache => exact searchPool_failStop
  | none => exact makeCache_failStop

theorem ownOperation_failStop {key uid suffix : String} :
    (ownOperation r key uid suffix).FailStop := by
  unfold ownOperation
  refine Plan.FailStop.ask_bind fun operations => ?_
  split
  · exact trivial
  · exact Plan.FailStop.ask_bind fun _ => trivial

theorem ensureOwned_failStop {s : RequirementStatus} :
    (ensureOwned settings r s occasion).FailStop := by
  unfold ensureOwned uidOf
  refine Plan.FailStop.orFail_bind fun uid => ?_
  exact ownOperation_failStop.bind fun _ => commitThen_failStop

theorem follow_failStop {s : RequirementStatus} {operation : String} {now : Timestamp} :
    (follow settings r s operation now).FailStop := by
  unfold follow uidOf
  refine Plan.FailStop.orFail_bind fun uid => Plan.FailStop.ask_bind fun found => ?_
  cases found with
  | none => exact commitThen_failStop
  | some op =>
    show Plan.FailStop (ite _ _ (ite _ _ _))
    split
    · exact commitThen_failStop
    · split
      · refine commit_failStop.bind fun _ => ?_
        split
        · exact trivial
        · exact trivial
      · exact commitThen_failStop

theorem releaseAll_failStop {namespaceName uid : String} {operations : List Operation} :
    (releaseAll namespaceName uid operations).FailStop := by
  induction operations with
  | nil => exact trivial
  | cons op rest ih =>
    unfold releaseAll
    split
    · have hrelease : (release namespaceName uid op).FailStop := by
        unfold release versionOf
        exact Plan.FailStop.orFail_bind fun _ => Plan.FailStop.ask_bind fun _ => trivial
      exact hrelease.bind fun _ => ih
    · exact ih

theorem releaseClaims_failStop {s : RequirementStatus} : (releaseClaims r s).FailStop := by
  unfold releaseClaims uidOf
  split
  · exact trivial
  · exact Plan.FailStop.orFail_bind fun _ => Plan.FailStop.ask_bind fun _ => releaseAll_failStop

theorem delete_failStop {s : RequirementStatus} : (delete r s).FailStop := by
  unfold delete
  split
  · exact trivial
  · split
    · refine releaseClaims_failStop.bind fun _ => commit_failStop.bind fun _ => ?_
      exact Plan.FailStop.ask_bind fun _ => trivial
    · exact commit_failStop.bind fun _ => trivial

theorem advance_failStop {s : RequirementStatus} : (advance settings occasion r s).FailStop := by
  unfold advance
  split
  · exact takeIn_failStop
  · exact checkCache_failStop
  · exact follow_failStop
  · split
    · exact commitThen_failStop
    · exact ensureOwned_failStop
  · exact follow_failStop
  · exact commitThen_failStop
  · exact trivial
  · exact trivial

/-- A reconcile stops at the first failure of a call, with the error of that call. -/
theorem plan_failStop (settings : Settings) (occasion : Occasion) (r : Requirement) :
    (plan settings occasion r).FailStop := by
  unfold plan
  show Plan.FailStop (ite _ _ (ite _ _ _))
  split
  · exact trivial
  · split
    · exact delete_failStop
    · split
      · refine commit_failStop.bind fun written => ?_
        cases written with
        | false => exact trivial
        | true => exact trivial
      · exact advance_failStop

/--
In one reconcile, under any replies, the status is written once at most, and all that is changed
after it is that the finalizer goes; outside of deletion one object at most is made or claimed; and
a call that fails is the last one, and its error is that of the reconcile.
-/
theorem fail_stop (settings : Settings) (occasion : Occasion) (r : Requirement)
    {rest : Plan Action} (h : (plan settings occasion r).ComesTo answers rest) :
    (answers.map Answered.call).countP Call.writesStatus ≤ 1 ∧
      ((answers.map Answered.call).Pairwise fun earlier later => earlier.writesStatus = true →
        later.isMutation = true → later.removesFinalizer = true) ∧
      (r.isDeleting = false → (answers.map Answered.call).countP Call.acquires ≤ 1) ∧
      ∀ before call e after, answers = before ++ ⟨call, .error e⟩ :: after →
        after = [] ∧ rest.FailsWith e := by
  have horder : (answers.map Answered.call).Pairwise fun earlier later =>
      earlier.writesStatus = true → later.isMutation = true → later.removesFinalizer = true := by
    refine Plan.Obeys.pairwise ((plan_changes_unwritten settings occasion r).mono ?_) h
    intro past call _ hunwritten a ha hwrites hchanges
    cases hremoves : call.removesFinalizer with
    | true => rfl
    | false => exact absurd hwrites (by simp [hunwritten hchanges hremoves a ha])
  refine ⟨?_, horder, fun hkept => ?_, fun before call e after hanswers => ?_⟩
  · refine countP_le_one_of_pairwise (horder.imp fun {earlier later} hlast hearlier => ?_)
    cases hlater : later with
    | patchStatus name s =>
      subst hlater
      cases hlast hearlier rfl
    | _ => rfl
  · refine countP_le_one_of_pairwise (Plan.Obeys.pairwise
      ((plan_obeys settings occasion r).mono ?_) h)
    intro past call _ hmove a ha hacquires
    cases hcall : call.acquires with
    | false => rfl
    | true => exact absurd hacquires (by simp [hmove.acquires_first hkept hcall a ha])
  · rw [hanswers] at h
    exact (plan_failStop settings occasion r).of_comesTo h rfl

/-- A claim that meets a conflict is the end of a reconcile, which fails with that conflict. -/
theorem fail_stop_sample : ∃ before call rest,
    (plan {} sampleOccasion (searchingRequirement (some "key"))).ComesTo
      (before ++ [⟨call, .error (.conflict "Operation" "warm" "changed")⟩]) rest ∧
    call.acquires = true ∧ rest.FailsWith (.conflict "Operation" "warm" "changed") ∧
    ((before.map Answered.call) ++ [call]).countP Call.acquires ≤ 1 := by
  have hrun : (plan {} sampleOccasion (searchingRequirement (some "key"))).ComesTo
      ([⟨.getCache (Cache.nameForKey "key"), .ok (some (warmCache "dev" "key"))⟩,
        ⟨.listOperations "key", .ok [warmOperation "dev" "key"]⟩] ++
        [⟨.patchOwners "warm" (natText 1) ((warmOperation "dev" "key").metadata.withOwner
          (holderReference sampleRequirement "sample" false)),
          .error (.conflict "Operation" "warm" "changed")⟩])
      (.measure .claimConflict (.done (.error (.conflict "Operation" "warm" "changed")))) := by
    have hadvances : AdvancesFrom (searchingRequirement (some "key")) .cacheChecking :=
      ⟨rfl, validate_sampleRequirement, rfl⟩
    rw [plan_of_advancesFrom hadvances rfl]
    exact .call _ (.call _ (.call _ .here))
  obtain ⟨-, -, honce, hstops⟩ :=
    fail_stop {} sampleOccasion (searchingRequirement (some "key")) hrun
  have hlast := hstops _ _ _ _ rfl
  refine ⟨_, _, _, hrun, rfl, hlast.2, ?_⟩
  exact honce rfl

end Reconcile

end WarmPool
