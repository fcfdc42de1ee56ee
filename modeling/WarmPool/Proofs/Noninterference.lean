import WarmPool.Proofs.Addressing

/-!
# Namespaces do not interfere

A reconcile makes its calls in the namespace of its requirement (`Plan.Within`), and by them it
neither reads nor writes anything outside. The part of a cluster in a namespace (`Cluster.part`)
answers every call there as the whole does, and what is left behind is the part of what the whole
leaves behind (`Cluster.serve_part`), while all else stays as it is (`Cluster.besides_serve`). So
two clusters that agree in the namespace cannot be told apart by its reconciles, whatever befalls
their calls (`namespace_noninterference`).
-/

namespace WarmPool

open Reconcile

/-! ### Lists -/

section List

variable {α : Type} {meant p : α → Bool} {change : α → α}

/-- A change that keeps what is selected may be made before or after the selection. -/
theorem filter_updateWhere (h : ∀ a, meant a = true → p (change a) = p a) (l : List α) :
    (updateWhere meant change l).filter p = updateWhere meant change (l.filter p) := by
  unfold updateWhere
  rw [List.filter_map]
  refine congrArg (List.map _) (List.filter_congr fun a _ => ?_)
  by_cases ha : meant a = true
  · rw [Function.comp_apply, if_pos ha, h a ha]
  · rw [Function.comp_apply, if_neg ha]

theorem updateWhere_of_unmeant {l : List α} (h : ∀ a ∈ l, meant a = false) :
    updateWhere meant change l = l := by
  refine (List.map_congr_left fun a ha => ?_).trans l.map_id
  rw [if_neg (by simp [h a ha])]
  rfl

end List

/-! ### Writing a status -/

/-- Metadata that reads back at all has its namespace. -/
theorem Metadata.namespaceName_of_decode? {m m' : Metadata} (h : decode? m.encode = some m') :
    m'.namespaceName = m.namespaceName := by
  have hread : Json.optional? Json.toString? "namespace" m.encode.fieldsOf =
      some m.namespaceName := by
    refine Json.optional?_text ?_
    simp [encode, Json.fieldsOf, Json.lookup?_append]
  -- The fields are read in order; the namespace is the eleventh, and four come after it.
  unfold decode? at h
  obtain ⟨fields, hfields, h⟩ := Option.bind_eq_some_iff.1 h
  iterate 10 obtain ⟨_, -, h⟩ := Option.bind_eq_some_iff.1 h
  obtain ⟨namespaceName, hnamespace, h⟩ := Option.bind_eq_some_iff.1 h
  iterate 4 obtain ⟨_, -, h⟩ := Option.bind_eq_some_iff.1 h
  obtain rfl := Option.some.inj h
  cases hfields
  exact Option.some.inj (hnamespace.symm.trans hread)

/-- Whatever status is written, the requirement stays in its namespace. -/
theorem Requirement.withStatus_namespaceName (r : Requirement) (s : RequirementStatus) :
    (r.withStatus s).metadata.namespaceName = r.metadata.namespaceName := by
  have hmetadata : Json.lookup? "metadata"
      (Json.mergeFields r.encode.fieldsOf [("status", s.encode)]) = some r.metadata.encode := by
    rw [Json.lookup?_mergeFields _ (by simp)]
    rfl
  unfold withStatus
  cases hread : decode? (r.encode.merge (.object [("status", s.encode)])) with
  | none => rfl
  | some r' =>
    unfold decode? Resource.decode? at hread
    obtain ⟨_, h, rfl⟩ := Option.map_eq_some_iff.1 hread
    obtain ⟨fields', hfields, h⟩ := Option.bind_eq_some_iff.1 h
    obtain ⟨m, hm, h⟩ := Option.bind_eq_some_iff.1 h
    iterate 2 obtain ⟨_, -, h⟩ := Option.bind_eq_some_iff.1 h
    obtain rfl := Option.some.inj h
    cases hfields
    unfold Json.required? at hm
    rw [hmetadata, Option.bind_some] at hm
    exact Metadata.namespaceName_of_decode? hm

/-! ### Parts of a cluster -/

/-- Whether metadata states this namespace. -/
def Metadata.isIn (namespaceName : String) (m : Metadata) : Bool :=
  m.namespaceName = some namespaceName

/-- A call makes objects in this namespace only. -/
def Reconcile.Call.StaysIn (namespaceName : String) : Call → Prop
  | .createCache x => x.metadata.namespaceName = some namespaceName
  | .createOperation op => op.metadata.namespaceName = some namespaceName
  | _ => True

theorem Metadata.isIn_of_isAt {m : Metadata} {n name : String} (h : m.isAt n name = true) :
    m.isIn n = true := decide_eq_true (namespaceName_of_isAt h)

theorem Metadata.isIn_congr {m m' : Metadata} (h : m'.namespaceName = m.namespaceName)
    (n : String) : m'.isIn n = m.isIn n := by
  unfold isIn
  rw [h]

namespace Cluster

variable {c view : Cluster} {n name : String} {call : Call}

/-- The objects of a namespace, with the names and the versions that come next. -/
def part (n : String) (c : Cluster) : Cluster :=
  { c with
    requirements := c.requirements.filter fun r => r.metadata.isIn n
    caches := c.caches.filter fun x => x.metadata.isIn n
    operations := c.operations.filter fun op => op.metadata.isIn n }

/-- The objects besides those of a namespace. -/
def besides (n : String) (c : Cluster) : List Requirement × List Cache × List Operation :=
  (c.requirements.filter fun r => !r.metadata.isIn n, c.caches.filter fun x => !x.metadata.isIn n,
    c.operations.filter fun op => !op.metadata.isIn n)

/-! ### What is found in a part -/

theorem requirement?_part (c : Cluster) (n name : String) :
    (c.part n).requirement? n name = c.requirement? n name :=
  find?_filter_of_kept fun _ h => Metadata.isIn_of_isAt (mem_of_requirement? h).2

theorem cache?_part (c : Cluster) (n name : String) :
    (c.part n).cache? n name = c.cache? n name :=
  find?_filter_of_kept fun _ h => Metadata.isIn_of_isAt (by simpa using List.find?_some h)

theorem operation?_part (c : Cluster) (n name : String) :
    (c.part n).operation? n name = c.operation? n name :=
  find?_filter_of_kept fun _ h => Metadata.isIn_of_isAt (mem_of_operation? h).2

theorem listOperations_part (c : Cluster) (n key : String) :
    (c.part n).listOperations n key = c.listOperations n key := by
  unfold listOperations part
  rw [List.filter_filter]
  refine List.filter_congr fun op _ => ?_
  unfold Metadata.isIn
  cases decide (op.metadata.namespaceName = some n)
  · simp
  · simp

/-! ### What is written in a part -/

section Objects

variable {α : Type} (metadata : α → Metadata) {change : α → α}

/-- Objects are changed at their place, and the others of their namespace are found beside them. -/
theorem filter_isIn_updateWhere
    (h : ∀ a, (metadata (change a)).namespaceName = (metadata a).namespaceName) (n name : String)
    (l : List α) :
    ((updateWhere (fun a => (metadata a).isAt n name) change l).filter fun a =>
        (metadata a).isIn n) =
      updateWhere (fun a => (metadata a).isAt n name) change
        (l.filter fun a => (metadata a).isIn n) :=
  filter_updateWhere (p := fun a => (metadata a).isIn n)
    (fun a _ => Metadata.isIn_congr (h a) n) l

/-- No object besides is changed. -/
theorem filter_not_isIn_updateWhere
    (h : ∀ a, (metadata (change a)).namespaceName = (metadata a).namespaceName) (n name : String)
    (l : List α) :
    (updateWhere (fun a => (metadata a).isAt n name) change l).filter
        (fun a => !(metadata a).isIn n) = l.filter fun a => !(metadata a).isIn n := by
  rw [filter_updateWhere (p := fun a => !(metadata a).isIn n)
    fun a _ => congrArg (!·) (Metadata.isIn_congr (h a) n)]
  refine updateWhere_of_unmeant fun a ha => ?_
  rw [Bool.eq_false_iff]
  intro hat
  have hbesides := (List.mem_filter.1 ha).2
  rw [Metadata.isIn_of_isAt hat] at hbesides
  cases hbesides

/-- No object besides is removed. -/
theorem filter_not_isIn_filter (n name : String) (l : List α) :
    (l.filter fun a => !(metadata a).isAt n name).filter (fun a => !(metadata a).isIn n) =
      l.filter fun a => !(metadata a).isIn n := by
  rw [List.filter_filter]
  refine List.filter_congr fun a _ => ?_
  cases hat : (metadata a).isAt n name with
  | false => simp
  | true => simp [Metadata.isIn_of_isAt hat]

end Objects

theorem updateRequirement_part {change : Requirement → Requirement}
    (h : ∀ r, (change r).metadata.namespaceName = r.metadata.namespaceName) (c : Cluster)
    (n name : String) :
    (c.updateRequirement n name change).part n = (c.part n).updateRequirement n name change := by
  unfold updateRequirement part
  exact congrArg (fun l => { c.part n with requirements := l })
    (filter_isIn_updateWhere Requirement.metadata h n name c.requirements)

theorem besides_updateRequirement {change : Requirement → Requirement}
    (h : ∀ r, (change r).metadata.namespaceName = r.metadata.namespaceName) (c : Cluster)
    (n name : String) : (c.updateRequirement n name change).besides n = c.besides n :=
  Prod.ext (filter_not_isIn_updateWhere Requirement.metadata h n name c.requirements) rfl

theorem removeRequirement_part (c : Cluster) (n name : String) :
    (c.removeRequirement n name).part n = (c.part n).removeRequirement n name :=
  congrArg (fun l => { c.part n with requirements := l }) (List.filter_comm _ _ c.requirements)

theorem besides_removeRequirement (c : Cluster) (n name : String) :
    (c.removeRequirement n name).besides n = c.besides n :=
  Prod.ext (filter_not_isIn_filter Requirement.metadata n name c.requirements) rfl

/-! ### Calls within a part -/

/-- A transition that treats the part of a cluster as it treats the whole, and nothing else. -/
structure Local {α : Type} (n : String) (f : Cluster → α × Cluster) : Prop where
  part : ∀ c, f (c.part n) = ((f c).1, (f c).2.part n)
  besides : ∀ c, (f c).2.besides n = c.besides n

/-- What is told of the transition may be put otherwise. -/
theorem Local.map {α β : Type} {f : Cluster → α × Cluster} (h : Local n f) (g : α → β) :
    Local n fun c => (g (f c).1, (f c).2) := by
  refine ⟨fun c => ?_, h.besides⟩
  rw [h.part c]

theorem local_patchStatus (n name : String) (s : RequirementStatus) :
    Local n fun c => c.patchStatus n name s := by
  have hkept (r : Requirement) := r.withStatus_namespaceName s
  constructor
  · intro c
    unfold patchStatus
    rw [requirement?_part]
    split
    · rw [updateRequirement_part hkept]
    · rfl
  · intro c
    unfold patchStatus
    split
    · exact besides_updateRequirement hkept c n name
    · rfl

theorem local_addFinalizer (n name finalizer : String) :
    Local n fun c => c.addFinalizer n name finalizer := by
  have hkept (r : Requirement) :
      (r.takeFinalizer finalizer).metadata.namespaceName = r.metadata.namespaceName :=
    congrArg Prod.fst (r.touches_takeFinalizer finalizer).place
  constructor
  · intro c
    rw [addFinalizer_eq, addFinalizer_eq, requirement?_part]
    split
    · rw [updateRequirement_part hkept]
    · rfl
  · intro c
    rw [addFinalizer_eq]
    split
    · exact besides_updateRequirement hkept c n name
    · rfl

theorem local_removeFinalizer (n name finalizer : String) :
    Local n fun c => ((), c.removeFinalizer n name finalizer) := by
  have hkept (r : Requirement) :
      (r.dropFinalizer finalizer).metadata.namespaceName = r.metadata.namespaceName := rfl
  constructor
  · intro c
    refine Prod.ext rfl ?_
    show (c.part n).removeFinalizer n name finalizer = (c.removeFinalizer n name finalizer).part n
    unfold removeFinalizer
    rw [requirement?_part]
    cases c.requirement? n name with
    | none => rfl
    | some r =>
      simp only
      split
      · rfl
      · split
        · rw [removeRequirement_part]
        · rw [updateRequirement_part hkept]
  · intro c
    show (c.removeFinalizer n name finalizer).besides n = c.besides n
    unfold removeFinalizer
    cases c.requirement? n name with
    | none => rfl
    | some r =>
      simp only
      split
      · rfl
      · split
        · exact besides_removeRequirement c n name
        · exact besides_updateRequirement hkept c n name

theorem local_createCache {x : Cache} (hx : x.metadata.namespaceName = some n) :
    Local n fun c => c.createCache n x := by
  constructor
  · intro c
    unfold createCache
    rw [cache?_part]
    split
    · rfl
    · simp [part, Metadata.isIn, hx, nextVersion]
  · intro c
    unfold createCache
    split
    · rfl
    · simp [besides, Metadata.isIn, hx, nextVersion]

theorem local_createOperation {op : Operation} (hop : op.metadata.namespaceName = some n) :
    Local n fun c => c.createOperation op := by
  constructor
  · intro c
    simp [createOperation, part, Metadata.isIn, hop, nextVersion, drawnName]
  · intro c
    simp [createOperation, besides, Metadata.isIn, hop, nextVersion]

theorem local_patchOwners (n name seen : String) (owners : List OwnerReference) :
    Local n fun c => c.patchOwners n name seen owners := by
  have hkept (version : String) (op : Operation) :
      ((op.owned owners).stamped version).metadata.namespaceName = op.metadata.namespaceName := rfl
  constructor
  · intro c
    rw [patchOwners_eq, patchOwners_eq, operation?_part]
    cases c.operation? n name with
    | none => rfl
    | some op =>
      simp only
      split
      · refine Prod.ext rfl (congrArg (fun l => { c.nextVersion.2.part n with operations := l }) ?_)
        exact (filter_isIn_updateWhere Operation.metadata (hkept _) n name
          c.operations).symm
      · rfl
  · intro c
    rw [patchOwners_eq]
    cases c.operation? n name with
    | none => rfl
    | some op =>
      simp only
      split
      · refine Prod.ext rfl (Prod.ext rfl ?_)
        exact filter_not_isIn_updateWhere Operation.metadata (hkept _) n name
          c.operations
      · rfl

/-- The part of a cluster answers a call as the whole, and becomes the part of what that becomes. -/
theorem serve_part (h : call.StaysIn n) (view c : Cluster) :
    serve n (view.part n) (c.part n) call =
      ((serve n view c call).1, (serve n view c call).2.part n) := by
  cases call with
  | patchStatus name status => exact (local_patchStatus n name status).part c
  | addFinalizer name finalizer => exact (local_addFinalizer n name finalizer).part c
  | removeFinalizer name finalizer =>
    exact ((local_removeFinalizer n name finalizer).map Except.ok).part c
  | getCache name => exact Prod.ext (congrArg Except.ok (cache?_part view n name)) rfl
  | createCache x => exact ((local_createCache h).map Except.ok).part c
  | getOperation name => exact Prod.ext (congrArg Except.ok (operation?_part view n name)) rfl
  | listOperations key => exact Prod.ext (congrArg Except.ok (listOperations_part view n key)) rfl
  | createOperation op => exact ((local_createOperation h).map Except.ok).part c
  | patchOwners name seen owners => exact (local_patchOwners n name seen owners).part c

/-- A call leaves everything besides its namespace as it is. -/
theorem besides_serve (h : call.StaysIn n) (view c : Cluster) :
    (serve n view c call).2.besides n = c.besides n := by
  cases call with
  | patchStatus name status => exact (local_patchStatus n name status).besides c
  | addFinalizer name finalizer => exact (local_addFinalizer n name finalizer).besides c
  | removeFinalizer name finalizer => exact (local_removeFinalizer n name finalizer).besides c
  | getCache name => rfl
  | createCache x => exact (local_createCache h).besides c
  | getOperation name => rfl
  | listOperations key => rfl
  | createOperation op => exact (local_createOperation h).besides c
  | patchOwners name seen owners => exact (local_patchOwners n name seen owners).besides c

theorem deliver_part (h : call.StaysIn n) (view c : Cluster) (fate : Fate) :
    (c.part n).deliver n (view.part n) call fate =
      ((c.deliver n view call fate).1, (c.deliver n view call fate).2.part n) := by
  cases fate with
  | served => exact serve_part h view c
  | lost e => rfl
  | unheard e => exact congrArg (fun served => (Except.error e, served.2)) (serve_part h view c)

theorem besides_deliver (h : call.StaysIn n) (view c : Cluster) (fate : Fate) :
    (c.deliver n view call fate).2.besides n = c.besides n := by
  rcases c.deliver_cases n view call fate with hsame | ⟨-, hserved⟩
  · rw [hsame]
  · rw [hserved, besides_serve h view c]

end Cluster

/-! ### Runs with faults -/

/-- What befalls a call. -/
structure Fault where
  fate : Fate
  /-- The state from which caches and operations are read, if not the present one. -/
  shown : Option Cluster := none
  /-- Whether the reconcile is cut off before it hears of the call. -/
  cutOff : Bool := false

/-- What befalls a call in view of all that was answered before, the latest first. -/
abbrev Faults := List Answered → Call → Fault

/-- The same faults, with the parts of the states shown. -/
def Faults.part (n : String) (faults : Faults) : Faults := fun past call =>
  { faults past call with shown := (faults past call).shown.map (·.part n) }

theorem Faults.part_apply (n : String) (faults : Faults) (past : List Answered) (call : Call) :
    faults.part n past call =
      { faults past call with shown := (faults past call).shown.map (·.part n) } := rfl

/-- Runs a plan with these faults. -/
def Reconcile.Plan.course (faults : Faults) (past : List Answered) (c : Cluster) :
    Plan Action → Controller.Ending × Trace × Cluster
  | .done result => (.finished result, {}, c)
  | .event e next =>
    let (ending, trace, c) := course faults past c next
    (ending, { trace with events := e :: trace.events }, c)
  | .measure m next =>
    let (ending, trace, c) := course faults past c next
    (ending, { trace with measures := m :: trace.measures }, c)
  | .call n request next =>
    let fault := faults past request
    let answered := c.deliver n (fault.shown.getD c) request fault.fate
    if fault.cutOff then (.cutOff, { sent := [(n, request)] }, answered.2)
    else
      let (ending, trace, c) :=
        course faults (⟨request, answered.1⟩ :: past) answered.2 (next answered.1)
      (ending, { trace with sent := (n, request) :: trace.sent }, c)

/-- Reconciles a requirement with these faults. -/
def Faults.reconcile (faults : Faults) (settings : Settings) (occasion : Occasion) (c : Cluster)
    (r : Requirement) : Except Error Action × Trace × Cluster :=
  let (ending, trace, c) := (plan settings occasion r).course faults [] c
  let result := Controller.result settings r ending
  (result, { trace with measures := trace.measures ++ Controller.measures result }, c)

namespace Reconcile

variable {settings : Settings} {occasion : Occasion} {r : Requirement} {past : List Answered}
  {n : String} {p : Plan Action}

/-- What a reconcile makes is in the namespace of its requirement. -/
theorem plan_staysIn (settings : Settings) (occasion : Occasion)
    (hr : r.metadata.namespaceName = some n) :
    (plan settings occasion r).Obeys (fun _ call => call.StaysIn n) [] := by
  have hmakes := (plan_obeys settings occasion r).and (plan_makesSought settings occasion r)
  refine hmakes.mono fun past call _ h => ?_
  obtain ⟨hmove, hsought⟩ := h
  cases call with
  | createCache x =>
    rw [hsought x rfl]
    exact hr
  | createOperation op =>
    obtain ⟨-, uid, -, rfl⟩ := hmove.createOperation_cases
    exact hr
  | _ => exact trivial

namespace Plan

variable {faults : Faults}

/-- A plan that stays in a namespace has the same course in the part of a cluster. -/
theorem course_part (faults : Faults) (hwithin : p.Within n)
    (hp : p.Obeys (fun _ call => call.StaysIn n) past) (c : Cluster) :
    p.course (faults.part n) past (c.part n) =
      ((p.course faults past c).1, (p.course faults past c).2.1,
        (p.course faults past c).2.2.part n) := by
  induction p generalizing past c with
  | done result => rfl
  | event e next ih =>
    have hnext := ih hwithin hp c
    simp only [course, hnext]
  | measure m next ih =>
    have hnext := ih hwithin hp c
    simp only [course, hnext]
  | call n request next ih =>
    obtain ⟨rfl, hwithin⟩ := hwithin
    obtain ⟨hstays, hnext⟩ := hp
    have hshown (shown : Option Cluster) :
        (shown.map (·.part n)).getD (c.part n) = (shown.getD c).part n := by
      cases shown with
      | none => rfl
      | some view => rfl
    have hdelivered := Cluster.deliver_part hstays ((faults past request).shown.getD c) c
      (faults past request).fate
    simp only [course, Faults.part_apply, hshown, hdelivered]
    split
    · rfl
    · rw [ih _ (hwithin _) (hnext _)]

/-- A plan that stays in a namespace leaves everything besides as it is. -/
theorem besides_course (hwithin : p.Within n) (hp : p.Obeys (fun _ call => call.StaysIn n) past)
    (c : Cluster) : (p.course faults past c).2.2.besides n = c.besides n := by
  induction p generalizing past c with
  | done result => rfl
  | event e next ih => exact ih hwithin hp c
  | measure m next ih => exact ih hwithin hp c
  | call n request next ih =>
    obtain ⟨rfl, hwithin⟩ := hwithin
    obtain ⟨hstays, hnext⟩ := hp
    have hanswered := Cluster.besides_deliver hstays ((faults past request).shown.getD c) c
      (faults past request).fate
    simp only [course]
    split
    · exact hanswered
    · exact (ih _ (hwithin _) (hnext _) _).trans hanswered

/-- Every call of a course is one that the plan may come to. -/
theorem sent_course (faults : Faults) (hwithin : p.Within n)
    (hp : p.Obeys (fun _ call => call.StaysIn n) past) (c : Cluster) :
    ∀ sent ∈ (p.course faults past c).2.1.sent, sent.1 = n ∧ sent.2.StaysIn n := by
  induction p generalizing past c with
  | done result => exact fun _ h => nomatch h
  | event e next ih => exact ih hwithin hp c
  | measure m next ih => exact ih hwithin hp c
  | call n request next ih =>
    obtain ⟨rfl, hwithin⟩ := hwithin
    obtain ⟨hstays, hnext⟩ := hp
    intro sent hsent
    simp only [course] at hsent
    split at hsent
    · rw [List.mem_singleton.1 hsent]
      exact ⟨rfl, hstays⟩
    · rcases List.mem_cons.1 hsent with rfl | hsent
      · exact ⟨rfl, hstays⟩
      · exact ih _ (hwithin _) (hnext _) _ sent hsent

end Plan

end Reconcile

/-! ### Rehearsals -/

namespace Rehearsal

variable {n : String} {timeout : Duration} {p : Plan Action} {past : List Answered}

/-- The part of a rehearsal in a namespace, with the same misbehaviour planned. -/
def part (n : String) (s : Rehearsal) : Rehearsal :=
  { s with cluster := s.cluster.part n, frozen := s.frozen.map (·.part n) }

/-- The failures still to come once these calls were answered. -/
def failuresAfter (s : Rehearsal) (past : List Answered) : List PlannedFailure :=
  past.foldr (fun a failures => (PlannedFailure.take? a.call.method failures).2) s.failures

/-- The time that has passed once these calls were answered. -/
def elapsedAfter (s : Rehearsal) (past : List Answered) : Duration :=
  past.foldr (fun a elapsed => elapsed + s.latency a.call.method) .zero

/-- The rehearsal once these calls were answered and have left this cluster. -/
def after (s : Rehearsal) (past : List Answered) (c : Cluster) : Rehearsal :=
  { s with cluster := c, failures := s.failuresAfter past }

/-- What befalls the calls of a reconcile in a rehearsal. -/
def faults (timeout : Duration) (s : Rehearsal) : Faults := fun past call =>
  if isCutOff timeout (s.elapsedAfter past) (s.latency call.method) then
    { fate := .lost .ownerWithoutUid, cutOff := true }
  else
    match (PlannedFailure.take? call.method (s.failuresAfter past)).1 with
    | some e => { fate := .lost e }
    | none => { fate := .served, shown := s.frozen }

theorem faults_part (s : Rehearsal) : (s.part n).faults timeout = (s.faults timeout).part n := by
  funext past call
  rw [Faults.part_apply]
  show (if isCutOff timeout (s.elapsedAfter past) (s.latency call.method) then _ else _) = _
  unfold faults
  split
  · rfl
  · show (match (PlannedFailure.take? call.method (s.failuresAfter past)).1 with
      | some e => _
      | none => _) = _
    cases (PlannedFailure.take? call.method (s.failuresAfter past)).1 with
    | some e => rfl
    | none => rfl

/-- A call that is not cut off is answered as its fault has it. -/
theorem answer_eq_deliver (s : Rehearsal) (c : Cluster) {call : Call}
    (hgoes : ¬ isCutOff timeout (s.elapsedAfter past) (s.latency call.method) = true) :
    ∃ fault : Fault, s.faults timeout past call = fault ∧ fault.cutOff = false ∧
      ∀ answered, c.deliver n (fault.shown.getD c) call fault.fate = answered →
        answer n (s.after past c) call =
          (answered.1, s.after (⟨call, answered.1⟩ :: past) answered.2) := by
  have hfailures : (s.after past c).failures = s.failuresAfter past := rfl
  unfold faults answer
  rw [if_neg hgoes, hfailures]
  cases htake : PlannedFailure.take? call.method (s.failuresAfter past) with
  | mk planned failures =>
    have hafter (reply : Except Error call.Reply) (c' : Cluster) :
        s.after (⟨call, reply⟩ :: past) c' = { s with cluster := c', failures := failures } := by
      have hrest : s.failuresAfter (⟨call, reply⟩ :: past) = failures := congrArg Prod.snd htake
      rw [after, hrest]
    cases planned with
    | some e =>
      refine ⟨{ fate := .lost e }, rfl, rfl, ?_⟩
      rintro answered rfl
      exact Prod.ext rfl (hafter _ _).symm
    | none =>
      refine ⟨{ fate := .served, shown := s.frozen }, rfl, rfl, ?_⟩
      rintro answered rfl
      exact Prod.ext rfl (hafter _ _).symm

/-- A rehearsal runs a plan with the faults that are planned in it. -/
theorem run_eq_course (s : Rehearsal) (timeout : Duration) (past : List Answered) (c : Cluster) :
    ∃ past', run timeout (s.elapsedAfter past) (s.after past c) p =
      ((p.course (s.faults timeout) past c).1, (p.course (s.faults timeout) past c).2.1,
        s.after past' (p.course (s.faults timeout) past c).2.2) := by
  induction p generalizing past c with
  | done result => exact ⟨past, rfl⟩
  | event e next ih =>
    obtain ⟨past', hnext⟩ := ih past c
    refine ⟨past', ?_⟩
    simp only [run, Plan.course, hnext]
  | measure m next ih =>
    obtain ⟨past', hnext⟩ := ih past c
    refine ⟨past', ?_⟩
    simp only [run, Plan.course, hnext]
  | call n call next ih =>
    have hlatency : latency (s.after past c) call.method = s.latency call.method := rfl
    by_cases hcut : isCutOff timeout (s.elapsedAfter past) (s.latency call.method) = true
    · have hfault : s.faults timeout past call =
          { fate := .lost .ownerWithoutUid, cutOff := true } := if_pos hcut
      refine ⟨past, ?_⟩
      simp only [run, Plan.course, hlatency, hcut, hfault, ↓reduceIte]
      rfl
    · obtain ⟨fault, hfault, hkept, hanswer⟩ := s.answer_eq_deliver (n := n) c hcut
      obtain ⟨answered, hdelivered⟩ : ∃ answered,
          c.deliver n (fault.shown.getD c) call fault.fate = answered := ⟨_, rfl⟩
      obtain ⟨past', hnext⟩ := ih answered.1 (⟨call, answered.1⟩ :: past) answered.2
      refine ⟨past', ?_⟩
      simp only [run, Plan.course, hlatency, hcut, hfault, hkept, hdelivered,
        hanswer answered hdelivered, Bool.false_eq_true, ↓reduceIte]
      rw [show s.elapsedAfter past + s.latency call.method =
        s.elapsedAfter (⟨call, answered.1⟩ :: past) from rfl, hnext]

end Rehearsal

/-! ### Reconciles -/

/-- Two reconciles that cannot be told apart in a namespace, outside of which they do nothing. -/
structure Indistinct (n : String) (c c' : Cluster)
    (run run' : Except Error Action × Trace × Cluster) : Prop where
  result : run.1 = run'.1
  trace : run.2.1 = run'.2.1
  within : run.2.2.part n = run'.2.2.part n
  besides : run.2.2.besides n = c.besides n
  besides' : run'.2.2.besides n = c'.besides n
  sent : ∀ sent ∈ run.2.1.sent, sent.1 = n
  made : ∀ call ∈ run.2.1.calls, call.StaysIn n

variable {n : String} {r : Requirement} {settings : Settings} {occasion : Occasion}

/-- Reconciles in clusters that agree in the namespace, with the same faults. -/
theorem Faults.reconcile_indistinct (hr : r.metadata.namespaceName = some n) {c c' : Cluster}
    (hc : c.part n = c'.part n) {faults faults' : Faults}
    (hfaults : faults.part n = faults'.part n) :
    Indistinct n c c' (faults.reconcile settings occasion c r)
      (faults'.reconcile settings occasion c' r) := by
  have hplan := plan_staysIn settings occasion hr
  have hwithin : (plan settings occasion r).Within n :=
    Requirement.namespaceName_of_some hr ▸ plan_within settings occasion r
  have hsame := Plan.course_part faults hwithin hplan c
  have hsame' := Plan.course_part faults' hwithin hplan c'
  rw [hc, hfaults, hsame', Prod.mk.injEq, Prod.mk.injEq] at hsame
  obtain ⟨hending, htrace, hpart⟩ := hsame
  have hsent := Plan.sent_course faults hwithin hplan c
  unfold reconcile
  refine ⟨?_, ?_, hpart.symm, Plan.besides_course hwithin hplan c,
    Plan.besides_course hwithin hplan c', fun sent h => (hsent sent h).1, fun call h => ?_⟩
  · exact congrArg (Controller.result settings r) hending.symm
  · simp only [hending, htrace]
  · obtain ⟨sent, hmem, rfl⟩ := List.mem_map.1 h
    exact (hsent sent hmem).2

namespace Rehearsal

/-- What a reconcile comes to in a rehearsal, and the cluster that it leaves. -/
def outcome (settings : Settings) (occasion : Occasion) (s : Rehearsal) (r : Requirement) :
    Except Error Action × Trace × Cluster :=
  let (result, trace, s) := s.reconcile settings occasion r
  (result, trace, s.cluster)

theorem outcome_eq (s : Rehearsal) :
    s.outcome settings occasion r =
      (s.faults settings.timeout).reconcile settings occasion s.cluster r := by
  obtain ⟨past', hrun⟩ :=
    s.run_eq_course (p := Reconcile.plan settings occasion r) settings.timeout [] s.cluster
  have hstart : run settings.timeout .zero s (Reconcile.plan settings occasion r) = _ := hrun
  unfold outcome reconcile Faults.reconcile
  rw [hstart]
  rfl

end Rehearsal

/--
A reconcile of a requirement in a namespace makes its calls in the namespace, whatever it is told.
Take two clusters that agree in the namespace and will choose the same names and versions, and the
same faults: calls that fail before or after they take effect, reads of states that agree in the
namespace, and a deadline that may pass during any call. The reconcile comes to the same result with
the same calls, events and counts, and leaves the same objects in the namespace. The objects besides
stay as they are, and every cache and operation that it makes is in the namespace. The same goes for
rehearsals.
-/
theorem namespace_noninterference (hr : r.metadata.namespaceName = some n) (settings : Settings)
    (occasion : Occasion) :
    (plan settings occasion r).Within n ∧
    (∀ (c c' : Cluster) (faults faults' : Faults), c.part n = c'.part n →
      faults.part n = faults'.part n →
      Indistinct n c c' (faults.reconcile settings occasion c r)
        (faults'.reconcile settings occasion c' r)) ∧
    ∀ s s' : Rehearsal, s.part n = s'.part n →
      Indistinct n s.cluster s'.cluster (s.outcome settings occasion r)
        (s'.outcome settings occasion r) := by
  refine ⟨Requirement.namespaceName_of_some hr ▸ plan_within settings occasion r,
    fun c c' faults faults' hc hfaults => Faults.reconcile_indistinct hr hc hfaults,
    fun s s' hs => ?_⟩
  have hcluster : s.cluster.part n = s'.cluster.part n := congrArg Rehearsal.cluster hs
  have hfaults : (s.faults settings.timeout).part n = (s'.faults settings.timeout).part n := by
    rw [← s.faults_part, ← s'.faults_part, hs]
  rw [s.outcome_eq, s'.outcome_eq]
  exact Faults.reconcile_indistinct hr hcluster hfaults

/-- A cluster that has the stock of one namespace in another one as well. -/
def doubleStock (r : Requirement) : Cluster :=
  { Cluster.stocked "dev" "key" r with
    caches := [warmCache "prod" "key", warmCache "dev" "key"]
    operations := [warmOperation "prod" "key", warmOperation "dev" "key"] }

/-- A requirement looks for its operation beside a pool of the same key in another namespace. -/
theorem namespace_noninterference_sample :
    let r := searchingRequirement (some "key")
    let s : Rehearsal := { cluster := Cluster.stocked "dev" "key" r }
    let s' : Rehearsal := { cluster := doubleStock r }
    s.cluster ≠ s'.cluster ∧
      (s.outcome {} sampleOccasion r).1 = (s'.outcome {} sampleOccasion r).1 ∧
      warmOperation "prod" "key" ∈ (s'.outcome {} sampleOccasion r).2.2.operations := by
  intro r s s'
  have hsame := (namespace_noninterference rfl {} sampleOccasion (r := r)).2.2 s s' rfl
  refine ⟨fun h => ?_, hsame.result, ?_⟩
  · have hcaches := congrArg (fun c : Cluster => c.caches.length) h
    cases hcaches
  · have hbesides := congrArg (fun objects => objects.2.2) hsame.besides'
    have hkept : warmOperation "prod" "key" ∈ (s'.cluster.besides "dev").2.2 :=
      List.mem_filter.2 ⟨List.mem_cons_self, rfl⟩
    rw [← hbesides] at hkept
    exact (List.mem_filter.1 hkept).1

end WarmPool
