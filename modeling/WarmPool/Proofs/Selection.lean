import WarmPool.Proofs.Precedence

/-!
# What is selected from a pool

An operation is on offer (`Pool.Offered`) if it is listed, named in the pool and acquirable, which
`Pool.Acquirable` spells out. Of the operations on offer the first is selected, where `Pool.Before`
says who comes first: those with a ready time, the earlier one, the smaller name. Operations with
distinct names never stand side by side in this order, so what is selected depends on which
operations are listed and which names are in the pool, and not on how the two lists are arranged
(`Pool.selects_first`).
-/

namespace WarmPool

namespace Pool

/-! ### What is on offer -/

/-- An operation that can be claimed from the pool of a cache. -/
structure Acquirable (cache : Cache) (op : Operation) : Prop where
  ready : op.phase = .ready
  transferable : ∃ s, op.status = some s ∧ s.ownerTransferable = true
  kept : op.metadata.deletionTimestamp = none
  /-- No requirement holds it, whether as controller or not. -/
  unheld : ∀ o ∈ op.metadata.owners, o.kind ≠ Kind.requirement.name
  /-- Its first controlling owner is the cache, by UID, or by name if the cache has no UID. -/
  owned : ∃ o, op.metadata.controllerOwner? = some o ∧ o.kind = Kind.cache.name ∧
    (∀ uid, cache.metadata.uid = some uid → o.uid = uid) ∧
    (cache.metadata.uid = none → o.name = cache.name)

/-- An operation that a requirement may claim: listed, in the pool of the cache and acquirable. -/
structure Offered (cache : Cache) (operations : List Operation) (op : Operation) : Prop where
  listed : op ∈ operations
  pooled : op.name ∈ cache.pool
  acquirable : Acquirable cache op

variable {cache : Cache} {operations : List Operation} {a b op other : Operation}

theorem ownedByCache_iff {owner : OwnerReference} : ownedByCache cache owner = true ↔
    owner.kind = Kind.cache.name ∧ (∀ uid, cache.metadata.uid = some uid → owner.uid = uid) ∧
      (cache.metadata.uid = none → owner.name = cache.name) := by
  unfold ownedByCache
  cases cache.metadata.uid with
  | none => simp
  | some uid => simp

theorem isAcquirable_iff : isAcquirable cache op = true ↔ Acquirable cache op := by
  have htransferable : op.isTransferable = true ↔
      ∃ s, op.status = some s ∧ s.ownerTransferable = true := by
    unfold Operation.isTransferable
    cases op.status with
    | none => simp
    | some s => simp
  have hunheld : (op.metadata.ownersOfKind Kind.requirement.name).isEmpty = true ↔
      ∀ o ∈ op.metadata.owners, o.kind ≠ Kind.requirement.name := by
    unfold Metadata.ownersOfKind
    rw [List.isEmpty_iff, List.filter_eq_nil_iff]
    simp only [decide_eq_true_eq]
  have howned : (op.metadata.controllerOwner?.map (ownedByCache cache)).getD false = true ↔
      ∃ o, op.metadata.controllerOwner? = some o ∧ ownedByCache cache o = true := by
    cases op.metadata.controllerOwner? with
    | none => simp
    | some o => simp
  unfold isAcquirable
  rw [Bool.and_eq_true, Bool.and_eq_true, Bool.and_eq_true, Bool.and_eq_true, htransferable,
    Option.isNone_iff_eq_none, hunheld, howned]
  simp only [ownedByCache_iff]
  constructor
  · rintro ⟨⟨⟨⟨hready, htransferable⟩, hkept⟩, hunheld⟩, howned⟩
    exact ⟨of_decide_eq_true hready, htransferable, hkept, hunheld, howned⟩
  · intro h
    exact ⟨⟨⟨⟨decide_eq_true h.ready, h.transferable⟩, h.kept⟩, h.unheld⟩, h.owned⟩

theorem mem_candidates_iff : op ∈ candidates cache operations ↔ Offered cache operations op := by
  unfold candidates
  rw [List.mem_filter, List.mem_filter, List.contains_iff_mem, isAcquirable_iff]
  constructor
  · rintro ⟨⟨hlisted, hpooled⟩, hacquirable⟩
    exact ⟨hlisted, hpooled, hacquirable⟩
  · intro h
    exact ⟨⟨h.listed, h.pooled⟩, h.acquirable⟩

/-- What is on offer depends on the elements of the two lists, not on their order. -/
theorem Offered.congr {cache' : Cache} {operations' : List Operation}
    (hmetadata : cache'.metadata = cache.metadata)
    (hpool : ∀ name, name ∈ cache'.pool ↔ name ∈ cache.pool) (hperm : operations'.Perm operations) :
    Offered cache' operations' op ↔ Offered cache operations op := by
  have hname : cache'.name = cache.name := congrArg Metadata.anyName hmetadata
  have hacquirable : Acquirable cache' op ↔ Acquirable cache op := by
    rw [← isAcquirable_iff, ← isAcquirable_iff]
    unfold isAcquirable ownedByCache
    rw [hmetadata, hname]
  constructor
  · intro h
    exact ⟨hperm.mem_iff.1 h.listed, (hpool _).1 h.pooled, hacquirable.1 h.acquirable⟩
  · intro h
    exact ⟨hperm.mem_iff.2 h.listed, (hpool _).2 h.pooled, hacquirable.2 h.acquirable⟩

/-! ### Who comes first -/

/-- The operation `a` comes before `b`. -/
inductive Before (a b : Operation) : Prop where
  /-- Only `a` has a ready time. -/
  | timed {s : Timestamp} (ha : a.readyTime? = some s) (hb : b.readyTime? = none)
  /-- Both have one, and that of `a` is earlier. -/
  | earlier {s t : Timestamp} (ha : a.readyTime? = some s) (hb : b.readyTime? = some t) (h : s < t)
  /-- Neither has one or both have the same, and the name of `a` is smaller. -/
  | named (htime : a.readyTime? = b.readyTime?) (h : a.name < b.name)

theorem before_iff_precedes : Before a b ↔ precedes a b = true := by
  unfold precedes
  constructor
  · rintro (⟨ha, hb⟩ | ⟨ha, hb, h⟩ | ⟨htime, h⟩)
    · rw [ha, hb]
    · rw [ha, hb]
      simp [h]
    · rw [htime]
      cases b.readyTime? with
      | none => simpa using h
      | some t => simp [h]
  · intro h
    cases ha : a.readyTime? with
    | none =>
      cases hb : b.readyTime? with
      | none =>
        rw [ha, hb] at h
        exact .named (ha.trans hb.symm) (of_decide_eq_true h)
      | some t =>
        rw [ha, hb] at h
        cases h
    | some s =>
      cases hb : b.readyTime? with
      | none => exact .timed ha hb
      | some t =>
        rw [ha, hb] at h
        simp only [Bool.or_eq_true, Bool.and_eq_true, decide_eq_true_eq] at h
        rcases h with h | ⟨rfl, h⟩
        · exact .earlier ha hb h
        · exact .named (ha.trans hb.symm) h

/-- Of two operations at most one comes before the other. -/
theorem Before.asymm (h : Before a b) : ¬Before b a := by
  rw [before_iff_precedes, precedes_iff] at *
  exact h.asymm

/-- The operation on offer that comes before all others. -/
structure First (cache : Cache) (operations : List Operation) (op : Operation) : Prop where
  offered : Offered cache operations op
  before : ∀ other, Offered cache operations other → other ≠ op → Before op other

/-- There is no other first operation. -/
theorem First.unique (h : First cache operations a) (h' : First cache operations b) : a = b := by
  by_contra hne
  exact (h.before b h'.offered (Ne.symm hne)).asymm (h'.before a h.offered hne)

/-! ### The one that is selected -/

theorem select?_eq_none_iff :
    select? cache operations = none ↔ ∀ op, ¬Offered cache operations op := by
  constructor
  · intro h op hop
    have hmem := mem_candidates_iff.2 hop
    rw [candidates_of_select?_eq_none h] at hmem
    cases hmem
  · intro h
    cases hselect : select? cache operations with
    | none => rfl
    | some op => exact absurd (mem_candidates_iff.1 (mem_candidates_of_select? hselect)) (h op)

/-- With distinct names, no other operation on offer comes before or stands beside the selected. -/
theorem first_of_select? (hdistinct : (operations.map Operation.name).Nodup)
    (h : select? cache operations = some op) : First cache operations op := by
  have hop : Offered cache operations op := mem_candidates_iff.1 (mem_candidates_of_select? h)
  refine ⟨hop, fun other hother hne => ?_⟩
  have hnames : op.name ≠ other.name := fun heq =>
    hne (List.inj_on_of_nodup_map hdistinct hother.listed hop.listed heq.symm)
  have hnot : precedes other op = false := not_precedes_of_select? h (mem_candidates_iff.2 hother)
  rcases precedes_or_precedes hnames with hprecedes | hprecedes
  · exact before_iff_precedes.2 hprecedes
  · rw [hnot] at hprecedes
    cases hprecedes

theorem select?_eq_some_iff (hdistinct : (operations.map Operation.name).Nodup) :
    select? cache operations = some op ↔ First cache operations op := by
  refine ⟨first_of_select? hdistinct, fun hop => ?_⟩
  cases hselect : select? cache operations with
  | none => exact absurd hop.offered (select?_eq_none_iff.1 hselect op)
  | some other => rw [(first_of_select? hdistinct hselect).unique hop]

/--
Nothing is selected exactly if nothing is on offer, and otherwise the operation on offer that comes
before all others. Whoever lists the same operations, in whatever order, and sees the same names in
the pool, in whatever order and however often, selects the same one.
-/
theorem selects_first (cache : Cache) (operations : List Operation)
    (hdistinct : (operations.map Operation.name).Nodup) :
    (select? cache operations = none ↔ ∀ op, ¬Offered cache operations op) ∧
    (∀ op, select? cache operations = some op ↔ First cache operations op) ∧
    (select? cache operations ≠ none → ∃! op, First cache operations op) ∧
    ∀ (cache' : Cache) (operations' : List Operation), cache'.metadata = cache.metadata →
      (∀ name, name ∈ cache'.pool ↔ name ∈ cache.pool) → operations'.Perm operations →
      select? cache' operations' = select? cache operations := by
  refine ⟨select?_eq_none_iff, fun op => select?_eq_some_iff hdistinct, fun hsome => ?_, ?_⟩
  · obtain ⟨op, hselect⟩ := Option.ne_none_iff_exists'.1 hsome
    have hfirst := first_of_select? hdistinct hselect
    exact ⟨op, hfirst, fun other hother => hother.unique hfirst⟩
  · intro cache' operations' hmetadata hpool hperm
    have hoffered (op : Operation) :
        Offered cache' operations' op ↔ Offered cache operations op :=
      Offered.congr hmetadata hpool hperm
    have hdistinct' : (operations'.map Operation.name).Nodup :=
      (hperm.map Operation.name).nodup_iff.2 hdistinct
    refine Option.ext fun op => ?_
    rw [select?_eq_some_iff hdistinct, select?_eq_some_iff hdistinct']
    constructor
    · intro h
      exact ⟨(hoffered op).1 h.offered, fun other hother =>
        h.before other ((hoffered other).2 hother)⟩
    · intro h
      exact ⟨(hoffered op).2 h.offered, fun other hother =>
        h.before other ((hoffered other).1 hother)⟩

/-- A cache with these names in its pool. -/
def pooledCache (names : List String) : Cache where
  metadata := { name := some "cache-key", uid := some "cache" }
  spec := { template := {}, keepAliveCount := 2, keepAliveDuration := "30m" }
  status := some { operations := names }

/-- An operation of the cache with this name and ready time. -/
def timedOperation (name : String) (readyTime : Option Timestamp) : Operation where
  metadata :=
    { name := some name
      ownerReferences := some [ownerReference .cache (pooledCache []).metadata "cache" true] }
  spec := {}
  status := some { phase := .ready, ownerTransferable := true, readyTime := readyTime }

/-- Two were ready at the same time, one at no known time, and the first one is not in the pool. -/
def timedOperations : List Operation :=
  [timedOperation "a" none, timedOperation "c" (some ⟨10, 0⟩), timedOperation "0" (some ⟨5, 0⟩),
    timedOperation "b" (some ⟨10, 0⟩)]

theorem selects_first_sample :
    (timedOperations.map Operation.name).Nodup ∧
    First (pooledCache ["a", "b", "c"]) timedOperations (timedOperation "b" (some ⟨10, 0⟩)) ∧
    select? (pooledCache ["c", "b", "c", "a"]) timedOperations.reverse =
      select? (pooledCache ["a", "b", "c"]) timedOperations := by
  have hdistinct : (timedOperations.map Operation.name).Nodup := by decide
  obtain ⟨-, hfirst, -, hsame⟩ :=
    selects_first (pooledCache ["a", "b", "c"]) timedOperations hdistinct
  refine ⟨hdistinct, (hfirst _).1 (by decide), hsame _ _ rfl (fun name => ?_) ?_⟩
  · simp only [Cache.pool, pooledCache, Option.map_some, Option.getD_some, List.mem_cons,
      List.not_mem_nil, or_false]
    tauto
  · exact List.reverse_perm _

end Pool

end WarmPool
