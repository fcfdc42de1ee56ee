import WarmPool.Proofs.Move

/-!
# What a reconcile reports

Every status that a reconcile writes, in full, with the answers on which it rests (`Reports`). The
cases are those of the source of a status: a deletion, a wrong specification, taking in, the search
of a pool, and the look at the bound operation. `plan_grounds` shows that nothing else is written,
and on what grounds a reconcile looks at an operation, makes one or makes a cache.
-/

namespace WarmPool.Reconcile

/-! ### The statuses -/

/-- The status with which a requirement has found the cache that it looks for. -/
def searching (r : Requirement) (now : Timestamp) : RequirementStatus :=
  { r.known with key := some (soughtKey r r.known) }.cacheFound
    (Cache.nameForKey (soughtKey r r.known)) now

/-- The status of a requirement that was taken in. -/
def intake (r : Requirement) (now : Timestamp) : RequirementStatus :=
  if r.spec.enableCache then
    { (r.known.taken r.spec.template.key now).cacheUnknown
        (Cache.nameForKey r.spec.template.key) now with
      key := some r.spec.template.key
      phase := .cacheChecking }
  else { r.known.taken r.spec.template.key now with phase := .operating }

/-- The status of a requirement whose cache was made just now. -/
def emptiness (r : Requirement) (now : Timestamp) : RequirementStatus :=
  (searching r now).poolEmpty (Cache.nameForKey (soughtKey r r.known)) now

/-- The status of a requirement for which its pool has nothing. -/
def waiting (r : Requirement) (now : Timestamp) : RequirementStatus :=
  (searching r now).nothingAcquirable (Cache.nameForKey (soughtKey r r.known)) now

/-- The status of a requirement that is bound to an operation of its pool. -/
def binding (r : Requirement) (operation : String) (now : Timestamp) : RequirementStatus :=
  { (searching r now).acquired operation (Cache.nameForKey (soughtKey r r.known)) now with
    operationName := some operation
    phase := .operating }

/-- The status of a requirement that is bound to an operation of its own. -/
def ownership (r : Requirement) (operation : String) (now : Timestamp) : RequirementStatus :=
  { r.known.provisioned operation now with
    operationName := some operation
    phase := .operating }

/-- The status of a requirement whose operation is lost. -/
def loss (r : Requirement) (message : String) (now : Timestamp) : RequirementStatus :=
  { r.known.operationLost message now with
    operationName := none
    phase := if r.spec.enableCache then .cacheChecking else .operating }

/-- The status of a requirement whose operation is ready. -/
def readiness (r : Requirement) (operation : String) (now : Timestamp) : RequirementStatus :=
  { r.known.operationReady operation now with phase := .ready }

/-- The status of a requirement whose operation is in a phase other than ready. -/
def unreadiness (r : Requirement) (operation : String) (phase : OperationPhase)
    (now : Timestamp) : RequirementStatus :=
  { r.known.operationNotReady operation phase now with phase := .operating }

/-- The status of a requirement whose specification is wrong. -/
def refused (r : Requirement) (e : Error) (now : Timestamp) : RequirementStatus :=
  r.known.invalidSpec (e.forResource r.name).message now

section

variable (r : Requirement) (operation message : String) (phase : OperationPhase) (now : Timestamp)

/-- A requirement that is yet to come to its operation searches a pool or makes its own. -/
theorem coming_ne {phase : RequirementPhase} (hcache : phase ≠ .cacheChecking)
    (hoperating : phase ≠ .operating) :
    (if r.spec.enableCache then RequirementPhase.cacheChecking else .operating) ≠ phase := by
  split
  · exact hcache.symm
  · exact hoperating.symm

@[simp] theorem intake_phase :
    (intake r now).phase = if r.spec.enableCache then .cacheChecking else .operating := by
  unfold intake
  split
  · rfl
  · rfl

@[simp] theorem intake_operationName :
    (intake r now).operationName = r.known.operationName := by
  unfold intake
  split
  · rfl
  · rfl

@[simp] theorem emptiness_phase : (emptiness r now).phase = r.known.phase := rfl

@[simp] theorem waiting_phase : (waiting r now).phase = r.known.phase := rfl

@[simp] theorem binding_phase : (binding r operation now).phase = .operating := rfl

@[simp] theorem ownership_phase : (ownership r operation now).phase = .operating := rfl

@[simp] theorem loss_phase :
    (loss r message now).phase = if r.spec.enableCache then .cacheChecking else .operating := rfl

@[simp] theorem readiness_phase : (readiness r operation now).phase = .ready := rfl

@[simp] theorem unreadiness_phase : (unreadiness r operation phase now).phase = .operating := rfl

end

/-! ### What they rest on -/

/-- The bound operation is gone: there is none, it was deleted, or it refers to others only. -/
inductive Lost (r : Requirement) (past : List Answered) : Prop
  | unbound (h : r.known.operationName = none)
  | deleted {operation : String} (hbound : r.known.operationName = some operation)
      (hop : ⟨.getOperation operation, .ok none⟩ ∈ past)
  | released {operation uid : String} {op : Operation}
      (hbound : r.known.operationName = some operation) (huid : r.metadata.uid = some uid)
      (hop : ⟨.getOperation operation, .ok (some op)⟩ ∈ past)
      (howner : op.metadata.findOwner? uid = none)

/-- The bound operation is there and refers to the requirement. -/
structure Bound (r : Requirement) (past : List Answered) (operation : String) (op : Operation) :
    Prop where
  bound : r.known.operationName = some operation
  found : ⟨.getOperation operation, .ok (some op)⟩ ∈ past
  referred : ∃ uid, r.metadata.uid = some uid ∧ (op.metadata.findOwner? uid).isSome

/-- What the search of a pool has shown: the cache, and the operations of its key. -/
structure Searched (r : Requirement) (past : List Answered) (uid : String) (cache : Cache)
    (operations : List Operation) : Prop where
  uid : r.metadata.uid = some uid
  found : ⟨.getCache (Cache.nameForKey (soughtKey r r.known)), .ok (some cache)⟩ ∈ past
  listed : ⟨.listOperations (soughtKey r r.known), .ok operations⟩ ∈ past

theorem Searched.cons {r : Requirement} {past : List Answered} {uid : String} {cache : Cache}
    {operations : List Operation} (h : Searched r past uid cache operations) (a : Answered) :
    Searched r (a :: past) uid cache operations :=
  ⟨h.uid, List.mem_cons_of_mem _ h.found, List.mem_cons_of_mem _ h.listed⟩

/-- The statuses that a reconcile writes after these answers, the generation observed apart. -/
inductive Reports (occasion : Occasion) (r : Requirement) (past : List Answered) :
    RequirementStatus → Prop
  | deleting (hdeleting : r.isDeleting = true)
      (hphase : ¬(r.known.phase = .deleting ∨ r.known.phase = .deleted)) :
      Reports occasion r past { r.known with phase := .deleting }
  | deleted (h : Releases r) : Reports occasion r past { r.known with phase := .deleted }
  | invalid (hkept : r.isDeleting = false) (hspec : r.spec.validate ≠ .ok ()) (message : String) :
      Reports occasion r past (r.known.invalidSpec message occasion.now)
  | taken (h : AdvancesFrom r .initial) : Reports occasion r past (intake r occasion.now)
  | made (h : AdvancesFrom r .cacheChecking)
      (hnone : ⟨.getCache (Cache.nameForKey (soughtKey r r.known)), .ok none⟩ ∈ past) :
      Reports occasion r past (emptiness r occasion.now)
  | waiting (h : AdvancesFrom r .cacheChecking) {uid : String} {cache : Cache}
      {operations : List Operation} (hsearched : Searched r past uid cache operations)
      (hnone : Pool.claimedBy? uid operations = none)
      (hselect : Pool.select? cache operations = none) :
      Reports occasion r past (waiting r occasion.now)
  | bound (h : AdvancesFrom r .cacheChecking) {uid : String} {cache : Cache}
      {operations : List Operation} {op : Operation}
      (hsearched : Searched r past uid cache operations)
      (hheld : Pool.claimedBy? uid operations = some op ∨
        ∃ version owners, ⟨.patchOwners op.name version owners, .ok ()⟩ ∈ past) :
      Reports occasion r past (binding r op.name occasion.now)
  | owned (h : AdvancesFrom r .operating) (hunbound : r.known.operationName = none)
      (hplain : r.spec.enableCache = false) (operation : String) :
      Reports occasion r past (ownership r operation occasion.now)
  | unbound (h : AdvancesFrom r .operating) (hunbound : r.known.operationName = none)
      (hcache : r.spec.enableCache = true) :
      Reports occasion r past { r.known with phase := .cacheChecking }
  | lost (h : AdvancesFrom r .operating ∨ AdvancesFrom r .ready) (hlost : Lost r past)
      (message : String) : Reports occasion r past (loss r message occasion.now)
  | ready (h : AdvancesFrom r .operating ∨ AdvancesFrom r .ready) {operation : String}
      {op : Operation} (hbound : Bound r past operation op) (hready : op.isReady = true) :
      Reports occasion r past (readiness r operation occasion.now)
  | notReady (h : AdvancesFrom r .operating ∨ AdvancesFrom r .ready) {operation : String}
      {op : Operation} (hbound : Bound r past operation op) (hready : op.isReady = false) :
      Reports occasion r past (unreadiness r operation op.phase occasion.now)

/-- The grounds on which a reconcile makes a call. -/
def Grounds (occasion : Occasion) (r : Requirement) (past : List Answered) : Call → Prop
  | .patchStatus _ s => ∃ s', s = observed r s' ∧ Reports occasion r past s'
  | .getOperation operation => r.known.operationName = some operation
  | .createOperation _ => r.spec.enableCache = false
  | .createCache _ =>
    ⟨.getCache (Cache.nameForKey (soughtKey r r.known)), .ok none⟩ ∈ past
  | _ => True

variable {settings : Settings} {occasion : Occasion} {r : Requirement} {past : List Answered}
  {s : RequirementStatus}

/-! ### Writing the status -/

theorem commit_grounds (h : Reports occasion r past s) :
    (commit r s).Obeys (Grounds occasion r) past := by
  unfold commit
  split
  · exact trivial
  · exact Plan.Meets.ask_bind ⟨s, rfl, h⟩ fun _ => trivial

theorem commitThen_grounds {after : Duration} (h : Reports occasion r past s) :
    (commitThen r s after).Obeys (Grounds occasion r) past :=
  (commit_grounds h).bind fun _ _ _ => trivial

/-! ### Acquiring -/

theorem takeIn_grounds (h : AdvancesFrom r .initial) :
    (takeIn r r.known occasion.now).Obeys (Grounds occasion r) past := by
  have hwrite (past : List Answered) :
      (commitThen r (intake r occasion.now) .zero).Obeys (Grounds occasion r) past :=
    commitThen_grounds (.taken h)
  unfold takeIn
  by_cases hfinalizer : r.hasFinalizer = true
  · rw [if_pos hfinalizer]
    exact hwrite past
  · rw [if_neg hfinalizer]
    exact Plan.Meets.ask_bind trivial fun _ => hwrite _

theorem makeCache_grounds (h : AdvancesFrom r .cacheChecking) :
    (makeCache settings r { r.known with key := some (soughtKey r r.known) }
      (soughtKey r r.known) occasion.now).Obeys (Grounds occasion r)
      [⟨.getCache (Cache.nameForKey (soughtKey r r.known)), .ok none⟩] := by
  have hwrite (created : Bool) :
      (commitThen r (emptiness r occasion.now) settings.cachePoll).Obeys (Grounds occasion r)
      [⟨.createCache (newCache settings r (soughtKey r r.known)), .ok created⟩,
        ⟨.getCache (Cache.nameForKey (soughtKey r r.known)), .ok none⟩] :=
    commitThen_grounds (.made h (List.mem_cons_of_mem _ List.mem_cons_self))
  unfold makeCache
  refine Plan.Meets.ask_bind List.mem_cons_self fun created => ?_
  cases created with
  | false => exact hwrite false
  | true => exact hwrite true

theorem searchPool_grounds {uid : String} {cache : Cache} (h : AdvancesFrom r .cacheChecking)
    (huid : r.metadata.uid = some uid) :
    (searchPool settings r { r.known with key := some (soughtKey r r.known) }
      (soughtKey r r.known) uid cache occasion.now).Obeys (Grounds occasion r)
      [⟨.getCache (Cache.nameForKey (soughtKey r r.known)), .ok (some cache)⟩] := by
  unfold searchPool
  refine Plan.Meets.ask_bind trivial fun operations => ?_
  have hsearched : Searched r
      [⟨.listOperations (soughtKey r r.known), .ok operations⟩,
        ⟨.getCache (Cache.nameForKey (soughtKey r r.known)), .ok (some cache)⟩] uid cache
      operations := ⟨huid, List.mem_cons_of_mem _ List.mem_cons_self, List.mem_cons_self⟩
  cases hclaimed : Pool.claimedBy? uid operations with
  | some op => exact commitThen_grounds (.bound h hsearched (.inl hclaimed))
  | none =>
    cases hselect : Pool.select? cache operations with
    | none => exact commitThen_grounds (.waiting h hsearched hclaimed hselect)
    | some op =>
      show (claim _ _ _ _ _ _ _).Obeys _ _
      unfold claim
      refine Plan.Meets.orFail_bind fun version _ => Plan.Meets.attempt_bind trivial fun reply => ?_
      cases reply with
      | ok a =>
        exact commitThen_grounds
          (.bound h (hsearched.cons _) (.inr ⟨_, _, List.mem_cons_self⟩))
      | error e =>
        cases hconflict : e.isConflict with
        | false =>
          simp only [hconflict]
          exact trivial
        | true =>
          simp only [hconflict]
          exact trivial

theorem checkCache_grounds (h : AdvancesFrom r .cacheChecking) :
    (checkCache settings r r.known occasion.now).Obeys (Grounds occasion r) [] := by
  unfold checkCache
  refine Plan.Meets.orFail_bind fun uid huid => Plan.Meets.ask_bind trivial fun found => ?_
  cases found with
  | some cache => exact searchPool_grounds h huid
  | none => exact makeCache_grounds h

theorem ensureOwned_grounds (h : AdvancesFrom r .operating)
    (hunbound : r.known.operationName = none) (hplain : r.spec.enableCache = false) :
    (ensureOwned settings r r.known occasion).Obeys (Grounds occasion r) past := by
  have hown (key uid suffix : String) :
      (ownOperation r key uid suffix).Obeys (Grounds occasion r) past := by
    unfold ownOperation
    refine Plan.Meets.ask_bind trivial fun operations => ?_
    split
    · exact trivial
    · exact Plan.Meets.ask_bind hplain fun op => trivial
  unfold ensureOwned
  refine Plan.Meets.orFail_bind fun uid _ => (hown _ uid _).bind fun past operation _ => ?_
  exact commitThen_grounds (.owned h hunbound hplain operation)

/-! ### Following -/

theorem follow_grounds {operation : String} (h : AdvancesFrom r .operating ∨ AdvancesFrom r .ready)
    (hbound : r.known.operationName = some operation) :
    (follow settings r r.known operation occasion.now).Obeys (Grounds occasion r) past := by
  unfold follow
  refine Plan.Meets.orFail_bind fun uid huid => Plan.Meets.ask_bind hbound fun found => ?_
  cases found with
  | none => exact commitThen_grounds (.lost h (.deleted hbound List.mem_cons_self) _)
  | some op =>
    show Plan.Obeys _ _ (ite _ _ (ite _ _ _))
    split
    · rename_i hnone
      exact commitThen_grounds
        (.lost h (.released hbound huid List.mem_cons_self (Option.isNone_iff_eq_none.1 hnone)) _)
    · rename_i howner
      have hfound : Bound r (⟨.getOperation operation, .ok (some op)⟩ :: past) operation op :=
        ⟨hbound, List.mem_cons_self, uid, huid, by simpa [Option.isSome_iff_ne_none] using howner⟩
      split
      · rename_i hready
        refine (commit_grounds (.ready h hfound hready)).bind fun past' _ _ => ?_
        by_cases hphase : r.known.phase = .ready
        · rw [if_pos hphase]
          exact trivial
        · rw [if_neg hphase]
          exact trivial
      · rename_i hready
        exact commitThen_grounds (.notReady h hfound (by simpa using hready))

/-! ### Releasing -/

theorem releaseAll_grounds (namespaceName uid : String) (operations : List Operation) :
    (releaseAll namespaceName uid operations).Obeys (Grounds occasion r) past := by
  induction operations generalizing past with
  | nil => exact trivial
  | cons op rest ih =>
    unfold releaseAll
    split
    · have hrelease : (release namespaceName uid op).Obeys (Grounds occasion r) past := by
        unfold release
        exact Plan.Meets.orFail_bind fun version _ => Plan.Meets.ask_bind trivial fun _ => trivial
      exact hrelease.bind fun _ _ _ => ih
    · exact ih

theorem delete_grounds (hdeleting : r.isDeleting = true) :
    (delete r r.known).Obeys (Grounds occasion r) past := by
  unfold delete
  cases hfinalizer : r.hasFinalizer with
  | false => exact trivial
  | true =>
    simp only [Bool.not_true, Bool.false_eq_true, ↓reduceIte]
    split
    · rename_i hphase
      have hclaims : (releaseClaims r r.known).Obeys (Grounds occasion r) past := by
        unfold releaseClaims
        split
        · exact trivial
        · exact Plan.Meets.orFail_bind fun uid _ =>
            Plan.Meets.ask_bind trivial fun operations => releaseAll_grounds _ uid operations
      refine hclaims.bind fun past' _ _ => ?_
      refine (commit_grounds (.deleted ⟨hdeleting, hfinalizer, hphase⟩)).bind fun _ _ _ => ?_
      exact Plan.Meets.ask_bind trivial fun _ => trivial
    · rename_i hphase
      exact (commit_grounds (.deleting hdeleting hphase)).bind fun _ _ _ => trivial

/-! ### The whole reconcile -/

theorem advance_grounds (hdeleting : r.isDeleting = false) (hspec : r.spec.validate = .ok ()) :
    (advance settings occasion r r.known).Obeys (Grounds occasion r) [] := by
  have hfrom (phase : RequirementPhase) (hphase : r.known.phase = phase) : AdvancesFrom r phase :=
    ⟨hdeleting, hspec, hphase⟩
  unfold advance
  split
  · rename_i hphase
    exact takeIn_grounds (hfrom _ hphase)
  · rename_i hphase
    exact checkCache_grounds (hfrom _ hphase)
  · rename_i hphase hbound
    exact follow_grounds (.inl (hfrom _ hphase)) hbound
  · rename_i hphase hunbound
    split
    · rename_i hcache
      exact commitThen_grounds (.unbound (hfrom _ hphase) hunbound hcache)
    · rename_i hplain
      exact ensureOwned_grounds (hfrom _ hphase) hunbound (by simpa using hplain)
  · rename_i hphase hbound
    exact follow_grounds (.inr (hfrom _ hphase)) hbound
  · rename_i hphase hunbound
    exact commitThen_grounds (.lost (.inr (hfrom _ hphase)) (.unbound hunbound) _)
  · exact trivial
  · exact trivial

/-- A reconcile reports nothing but what it has grounds for, whatever it is answered. -/
theorem plan_grounds (settings : Settings) (occasion : Occasion) (r : Requirement) :
    (plan settings occasion r).Obeys (Grounds occasion r) [] := by
  unfold plan
  show Plan.Obeys _ _ (ite _ _ (ite _ _ _))
  by_cases hplace : r.metadata.namespaceName.isNone = true
  · rw [if_pos hplace]
    exact trivial
  · rw [if_neg hplace]
    by_cases hdeleting : r.isDeleting = true
    · rw [if_pos hdeleting]
      exact delete_grounds hdeleting
    · rw [if_neg hdeleting]
      have hkept : r.isDeleting = false := by simpa using hdeleting
      cases hspec : r.spec.validate with
      | ok u => exact advance_grounds hkept hspec
      | error e =>
        refine (commit_grounds (.invalid hkept (by rw [hspec]; simp) _)).bind
          fun _ written _ => ?_
        cases written with
        | false => exact trivial
        | true => exact trivial

end WarmPool.Reconcile
