import WarmPool.Proofs.Custody.Claimant
import WarmPool.Proofs.Rest
import WarmPool.Proofs.Stock

/-!
# Coming to rest

A requirement that is reconciled over and over, while nothing goes wrong and nobody else changes
anything, is at rest after three reconciles, whatever its status was and whatever the cluster holds
(`settles_after_four`). A fourth is needed where the requirement holds an operation of a pool whose
cache is gone (`Cluster.Stray`): it forgets what it was bound to, makes the cache again, finds what
it holds and shows whether that is ready (`four_reconciles_write`). At most the first reconcile is
followed by another at once.

The stages are taken from the last one back: bound to an operation that is there, waiting for a
pool, searching, and yet to come to an operation (`Reconcile.SettlesIn`).
-/

namespace WarmPool

open Reconcile

/-! ### What a cluster has for a requirement -/

theorem Reconcile.newOperation_name (r : Requirement) (key uid suffix : String) :
    (newOperation r key uid suffix).name = key ++ "-" ++ suffix := rfl

theorem Pool.isSome_findOwner?_of_isClaimedBy {uid : String} {op : Operation}
    (h : isClaimedBy uid op = true) : (op.metadata.findOwner? uid).isSome := by
  obtain ⟨o, ho, -, huid, -⟩ := isClaimedBy_iff.1 h
  exact isSome_findOwner?_of_mem ho huid

/-- Nothing is selected from an empty pool. -/
theorem Pool.select?_eq_none_of_pool {cache : Cache} (h : cache.pool = [])
    (operations : List Operation) : select? cache operations = none := by
  unfold select? candidates
  simp [h, least?]

namespace Cluster

/-- The operation to which a requirement is bound is stored and refers to it. -/
def Attached (c : Cluster) (namespaceName : String) (r : Requirement) (uid : String) : Prop :=
  ∃ operation op, r.known.operationName = some operation ∧
    c.operation? namespaceName operation = some op ∧ (op.metadata.findOwner? uid).isSome

/-- An operation of a key is held, while there is no cache for the key. -/
def Stray (c : Cluster) (namespaceName key uid : String) : Prop :=
  c.cache? namespaceName (Cache.nameForKey key) = none ∧
    (Pool.claimedBy? uid (c.listOperations namespaceName key)).isSome

/--
The name drawn for the operation that the requirement would make on an occasion is none that an
operation of its namespace has.
-/
def HasRoomFor (c : Cluster) (namespaceName : String) (r : Requirement) (occasion : Occasion) :
    Prop :=
  ∀ uid : String, c.HasRoom namespaceName
    (.createOperation (newOperation r r.spec.template.key uid occasion.suffixText))

variable {c c' : Cluster} {namespaceName name uid key : String} {r r' : Requirement}
  {op : Operation} {s : RequirementStatus}

theorem HasRoomFor.reported {occasion : Occasion} (h : c.HasRoomFor namespaceName r occasion)
    (hreported : c.Reported namespaceName r s c' r') :
    c'.HasRoomFor namespaceName r' occasion := by
  intro uid op hop
  obtain rfl := Call.createOperation.inj hop
  rw [hreported.operation?, hreported.drawnName, newOperation_name, hreported.alike.spec,
    ← newOperation_name r _ uid]
  exact h uid _ rfl

namespace Reported

theorem cache? (h : c.Reported namespaceName r s c' r') :
    c'.cache? namespaceName name = c.cache? namespaceName name :=
  congrArg (List.find? _) h.caches

theorem listOperations (h : c.Reported namespaceName r s c' r') :
    c'.listOperations namespaceName key = c.listOperations namespaceName key :=
  congrArg (List.filter _) h.operations

theorem stray (h : c.Reported namespaceName r s c' r')
    (hstray : c'.Stray namespaceName key uid) : c.Stray namespaceName key uid := by
  unfold Stray at hstray
  rwa [h.cache?, h.listOperations] at hstray

/-- A requirement whose key is stored searches by it. -/
theorem soughtKey_eq (h : c.Reported namespaceName r s c' r') (hkey : s.key = some key) :
    soughtKey r' r'.known = key := by
  unfold soughtKey
  rw [h.key, hkey, Option.some_or, Option.getD_some]

end Reported

end Cluster

namespace Reconcile

variable {settings : Settings} {occasion : Occasion} {namespaceName name uid key : String}
  {c c' : Cluster} {r r' : Requirement} {op : Operation} {s : RequirementStatus} {n : ℕ}
  {among : Set Occasion}

/-! ### Rounds -/

/-- One reconcile leads from a stored requirement to the next. -/
structure Round (settings : Settings) (occasion : Occasion) (namespaceName : String)
    (c : Cluster) (r : Requirement) (action : Action) (c' : Cluster) (r' : Requirement) :
    Prop where
  performs : ∃ calls, (plan settings occasion r).Performs namespaceName c action calls c'
  stores : c'.Stores namespaceName r'
  alike : r.Alike r'

/--
A requirement is at rest after so many reconciles, on whichever of these occasions they take place,
none of which is to be followed by another at once.
-/
def SettlesIn (settings : Settings) (among : Set Occasion) (namespaceName : String) :
    ℕ → Cluster → Requirement → Prop
  | 0, c, r => Rests settings namespaceName c r
  | n + 1, c, r => ∀ occasion ∈ among, occasion.now.Valid → ∃ action c' r',
      Round settings occasion namespaceName c r action c' r' ∧ Waits settings action ∧
        SettlesIn settings among namespaceName n c' r'

/-- What is at rest stays so. -/
theorem Rests.round (hrests : Rests settings namespaceName c r) (h : c.Stores namespaceName r)
    (hnow : occasion.now.Valid) :
    ∃ action, Round settings occasion namespaceName c r action c r ∧ Waits settings action := by
  obtain ⟨action, calls, c', hperforms, hreads, hwaits⟩ := hrests occasion hnow
  obtain rfl := hperforms.cluster_eq hreads
  exact ⟨action, ⟨⟨calls, hperforms⟩, h, .refl r⟩, hwaits⟩

theorem SettlesIn.succ (hsettles : SettlesIn settings among namespaceName n c r)
    (h : c.Stores namespaceName r) : SettlesIn settings among namespaceName (n + 1) c r := by
  induction n generalizing c r with
  | zero =>
    intro occasion _ hnow
    obtain ⟨action, hround, hwaits⟩ := Rests.round hsettles h hnow
    exact ⟨action, c, r, hround, hwaits, hsettles⟩
  | succ n ih =>
    intro occasion hmem hnow
    obtain ⟨action, c', r', hround, hwaits, hrest⟩ := hsettles occasion hmem hnow
    exact ⟨action, c', r', hround, hwaits, ih hrest hround.stores⟩

theorem SettlesIn.mono (hsettles : SettlesIn settings among namespaceName n c r)
    (h : c.Stores namespaceName r) {m : ℕ} (hle : n ≤ m) :
    SettlesIn settings among namespaceName m c r := by
  induction hle with
  | refl => exact hsettles
  | step _ ih => exact ih.succ h

/-- The next reconcile, with one fewer to come. -/
theorem SettlesIn.round (hsettles : SettlesIn settings among namespaceName n c r)
    (h : c.Stores namespaceName r) (hmem : occasion ∈ among) (hnow : occasion.now.Valid) :
    ∃ action c' r', Round settings occasion namespaceName c r action c' r' ∧
      Waits settings action ∧ SettlesIn settings among namespaceName (n - 1) c' r' := by
  cases n with
  | zero =>
    obtain ⟨action, hround, hwaits⟩ := Rests.round hsettles h hnow
    exact ⟨action, c, r, hround, hwaits, hsettles⟩
  | succ n => exact hsettles occasion hmem hnow

/-! ### Bound -/

/-- A requirement whose operation is there shows how it is, and rests. -/
theorem settlesIn_one_of_attached (h : c.Stores namespaceName r) (hlive : r.Live uid)
    (hphase : r.known.phase = .operating ∨ r.known.phase = .ready)
    (hattached : c.Attached namespaceName r uid) :
    SettlesIn settings among namespaceName 1 c r := by
  intro occasion _ hnow
  obtain ⟨operation, op, hbound, hop, howner⟩ := hattached
  have hfrom : AdvancesFrom r .operating ∨ AdvancesFrom r .ready :=
    hphase.imp hlive.from_ hlive.from_
  cases hready : op.isReady with
  | true =>
    obtain ⟨c', r', hperforms, hreported⟩ :=
      plan_performs_ready h hnow hfrom hlive.uid hbound hop howner hready
    refine ⟨_, c', r', ⟨⟨_, hperforms⟩, hreported.stores, hreported.alike⟩, .readyResync, ?_⟩
    exact rests_ready hreported.stores (hlive.alike hreported.alike) (hreported.settled hlive)
      hreported.phase (hreported.operationName.trans hbound) (hreported.operation?.trans hop)
      howner hready
      (hreported.tells ((RequirementStatus.says_withCondition _ _ _ _ _ _).of_conditions rfl))
  | false =>
    obtain ⟨c', r', hperforms, hreported⟩ :=
      plan_performs_notReady h hnow hfrom hlive.uid hbound hop howner hready
    refine ⟨_, c', r', ⟨⟨_, hperforms⟩, hreported.stores, hreported.alike⟩, .readinessPoll, ?_⟩
    exact rests_notReady hreported.stores (hlive.alike hreported.alike) (hreported.settled hlive)
      hreported.phase (hreported.operationName.trans hbound) (hreported.operation?.trans hop)
      howner hready
      (hreported.tells ((RequirementStatus.says_withCondition _ _ _ _ _ _).of_conditions rfl))

/-- A requirement that was bound just now has its operation there. -/
theorem settlesIn_one_of_bound (hreported : c.Reported namespaceName r s c' r')
    (hlive : r.Live uid) (hphase : s.phase = .operating) {operation : String}
    (hbound : s.operationName = some operation)
    (hop : c.operation? namespaceName operation = some op)
    (howner : (op.metadata.findOwner? uid).isSome) :
    SettlesIn settings among namespaceName 1 c' r' :=
  settlesIn_one_of_attached hreported.stores (hlive.alike hreported.alike)
    (.inl (hreported.phase.trans hphase))
    ⟨operation, op, hreported.operationName.trans hbound, hreported.operation?.trans hop, howner⟩

/-! ### Searching -/

/-- A requirement for which its pool has nothing shows that, and rests. -/
theorem settlesIn_one_of_waiting (h : c.Stores namespaceName r) (hlive : r.Live uid)
    (hphase : r.known.phase = .cacheChecking) (hkey : soughtKey r r.known = key) {cache : Cache}
    (hcache : c.cache? namespaceName (Cache.nameForKey key) = some cache)
    (hunheld : Pool.claimedBy? uid (c.listOperations namespaceName key) = none)
    (hselect : Pool.select? cache (c.listOperations namespaceName key) = none) :
    SettlesIn settings among namespaceName 1 c r := by
  subst hkey
  intro occasion _ hnow
  obtain ⟨c', r', hperforms, hreported⟩ :=
    plan_performs_waiting h hnow (hlive.from_ hphase) hlive.uid hcache hunheld hselect
  have hkey : r'.known.key = some (soughtKey r r.known) := hreported.key
  have hsought : soughtKey r' r'.known = soughtKey r r.known := hreported.soughtKey_eq rfl
  have htypes : RequirementStatus.acquiredType ≠ RequirementStatus.cacheFoundType := by decide
  refine ⟨_, c', r', ⟨⟨_, hperforms⟩, hreported.stores, hreported.alike⟩, .cachePoll, ?_⟩
  rw [← hsought] at hcache hunheld hselect hkey
  refine rests_waiting hreported.stores (hlive.alike hreported.alike) (hreported.settled hlive)
    (hreported.phase.trans hphase) (hreported.cache?.trans hcache) ?_ ?_ hkey ?_ ?_
  · rwa [hreported.listOperations]
  · rwa [hreported.listOperations]
  · rw [hsought]
    exact hreported.tells
      ((RequirementStatus.says_withCondition _ _ _ _ _ _).withCondition htypes _ _ _ _)
  · rw [hsought]
    exact hreported.tells (RequirementStatus.says_withCondition _ _ _ _ _ _)

/-- A requirement that has a pool to search binds what it holds or can claim, or else waits. -/
theorem settlesIn_two_of_cache (h : c.Stores namespaceName r) (htidy : c.Tidy)
    (hlive : r.Live uid) (hphase : r.known.phase = .cacheChecking)
    (hkey : soughtKey r r.known = key) {cache : Cache}
    (hcache : c.cache? namespaceName (Cache.nameForKey key) = some cache) :
    SettlesIn settings among namespaceName 2 c r := by
  cases hheld : Pool.claimedBy? uid (c.listOperations namespaceName key) with
  | some op =>
    intro occasion _ hnow
    subst hkey
    obtain ⟨c', r', hperforms, hreported⟩ :=
      plan_performs_adopting h hnow (hlive.from_ hphase) hlive.uid hcache hheld
    have hmem := List.mem_of_find?_eq_some hheld
    have hclaimed : Pool.isClaimedBy uid op = true := List.find?_some hheld
    refine ⟨_, c', r', ⟨⟨_, hperforms⟩, hreported.stores, hreported.alike⟩, .readinessPoll, ?_⟩
    exact settlesIn_one_of_bound hreported hlive rfl rfl (htidy.operation?_of_mem_list hmem)
      (Pool.isSome_findOwner?_of_isClaimedBy hclaimed)
  | none =>
    cases hselect : Pool.select? cache (c.listOperations namespaceName key) with
    | none =>
      exact (settlesIn_one_of_waiting h hlive hphase hkey hcache hheld hselect).succ h
    | some op =>
      intro occasion _ hnow
      subst hkey
      have hmem := Pool.mem_of_select? hselect
      have hop := htidy.operation?_of_mem_list hmem
      obtain ⟨version, hversion⟩ := Option.isSome_iff_exists.1
        (htidy.versioned op (List.mem_filter.1 hmem).1)
      have hclaim := @Cluster.patchOwners_stored c op namespaceName op.name version
        (op.metadata.withOwner (holderReference r uid false)) hop hversion
      obtain ⟨old, hold, -, hafter⟩ := Cluster.patchOwners_ok hclaim
      obtain rfl : op = old := Option.some.inj (hop.symm.trans hold)
      obtain ⟨c', r', hperforms, hreported⟩ := plan_performs_claiming h hnow
        (hlive.from_ hphase) hlive.uid hcache hheld hselect hversion hclaim
      refine ⟨_, c', r', ⟨⟨_, hperforms⟩, hreported.stores, hreported.alike⟩, .readinessPoll, ?_⟩
      refine settlesIn_one_of_bound hreported hlive rfl rfl hafter
        (isSome_findOwner?_of_mem (List.mem_append_right _ (List.mem_singleton_self _)) rfl)

/-- A requirement that searches makes its cache first if there is none. -/
theorem settlesIn_of_searching (h : c.Stores namespaceName r) (htidy : c.Tidy)
    (hlive : r.Live uid) (hphase : r.known.phase = .cacheChecking)
    (hkey : soughtKey r r.known = key) :
    SettlesIn settings among namespaceName 3 c r ∧
      (¬ c.Stray namespaceName key uid → SettlesIn settings among namespaceName 2 c r) := by
  cases hcache : c.cache? namespaceName (Cache.nameForKey key) with
  | some cache =>
    have hsettles : SettlesIn settings among namespaceName 2 c r :=
      settlesIn_two_of_cache h htidy hlive hphase hkey hcache
    exact ⟨hsettles.succ h, fun _ => hsettles⟩
  | none =>
    subst hkey
    have hmaking : ∀ occasion ∈ among, occasion.now.Valid → ∃ action c' r',
        Round settings occasion namespaceName c r action c' r' ∧ Waits settings action ∧
          SettlesIn settings among namespaceName 2 c' r' ∧
          (¬ c.Stray namespaceName (soughtKey r r.known) uid →
            SettlesIn settings among namespaceName 1 c' r') := by
      intro occasion _ hnow
      obtain ⟨calls, made, c', r', hperforms, hreported, hoperations, cache, hmade, hempty⟩ :=
        @plan_performs_making settings occasion _ _ _ _ h hnow (hlive.from_ hphase) hlive.uid hcache
      have hlive' := hlive.alike hreported.alike
      have hphase' := hreported.phase.trans hphase
      have hsought : soughtKey r' r'.known = soughtKey r r.known := hreported.soughtKey_eq rfl
      have hcache' := hreported.cache?.trans hmade
      have hsame : c'.operations = c.operations := hreported.operations.trans hoperations
      refine ⟨_, c', r', ⟨⟨_, hperforms⟩, hreported.stores, hreported.alike⟩, .cachePoll,
        settlesIn_two_of_cache hreported.stores (htidy.congr hsame) hlive' hphase' hsought hcache',
        fun hstray => ?_⟩
      have hlist : c'.listOperations namespaceName (soughtKey r r.known) =
          c.listOperations namespaceName (soughtKey r r.known) := congrArg (List.filter _) hsame
      refine settlesIn_one_of_waiting hreported.stores hlive' hphase' hsought hcache' ?_
        (Pool.select?_eq_none_of_pool hempty _)
      rw [hlist]
      by_contra hheld
      exact hstray ⟨hcache, Option.isSome_iff_ne_none.2 hheld⟩
    refine ⟨fun occasion hmem hnow => ?_, fun hstray occasion hmem hnow => ?_⟩
    · obtain ⟨action, c', r', hround, hwaits, hsettles, -⟩ := hmaking occasion hmem hnow
      exact ⟨action, c', r', hround, hwaits, hsettles⟩
    · obtain ⟨action, c', r', hround, hwaits, -, hsettles⟩ := hmaking occasion hmem hnow
      exact ⟨action, c', r', hround, hwaits, hsettles hstray⟩

/-! ### Yet to come to an operation -/

/-- A requirement without caching comes to an operation of its own. -/
theorem settlesIn_two_of_plain (h : c.Stores namespaceName r) (htidy : c.Tidy)
    (hroom : ∀ occasion ∈ among, c.HasRoomFor namespaceName r occasion) (hlive : r.Live uid)
    (hplain : r.spec.enableCache = false) (hphase : r.known.phase = .operating)
    (hunbound : r.known.operationName = none) : SettlesIn settings among namespaceName 2 c r := by
  intro occasion hmem hnow
  obtain ⟨operation, calls, made, c', r', hperforms, hreported, op, hop, howner⟩ :=
    @plan_performs_owning settings _ _ _ _ _ h hnow (hlive.from_ hphase) hlive.uid hunbound hplain
      htidy (hroom occasion hmem uid)
  exact ⟨_, c', r', ⟨⟨_, hperforms⟩, hreported.stores, hreported.alike⟩, .readinessPoll,
    settlesIn_one_of_bound hreported hlive rfl rfl hop howner⟩

/-- A requirement without an operation searches a pool or makes its own. -/
theorem settlesIn_of_coming (h : c.Stores namespaceName r) (htidy : c.Tidy)
    (hroom : r.spec.enableCache = false →
      ∀ occasion ∈ among, c.HasRoomFor namespaceName r occasion) (hlive : r.Live uid)
    (hphase : r.known.phase = if r.spec.enableCache then .cacheChecking else .operating)
    (hunbound : r.known.operationName = none)
    (hkey : r.spec.enableCache = true → soughtKey r r.known = key) :
    SettlesIn settings among namespaceName 3 c r ∧
      (¬ (r.spec.enableCache = true ∧ c.Stray namespaceName key uid) →
        SettlesIn settings among namespaceName 2 c r) := by
  cases hcaching : r.spec.enableCache with
  | true =>
    rw [hcaching, if_pos rfl] at hphase
    obtain ⟨hthree, htwo⟩ := @settlesIn_of_searching settings _ _ _ _ _ _ h htidy hlive hphase
      (hkey hcaching)
    exact ⟨hthree, fun hstray => htwo fun hstray' => hstray ⟨rfl, hstray'⟩⟩
  | false =>
    rw [hcaching, if_neg Bool.false_ne_true] at hphase
    have hsettles := @settlesIn_two_of_plain settings _ _ _ _ _ h htidy (hroom hcaching) hlive
      hcaching hphase hunbound
    exact ⟨hsettles.succ h, fun _ => hsettles⟩

/-- A requirement that was unbound or taken in just now. -/
theorem settlesIn_of_reported_coming (hreported : c.Reported namespaceName r s c' r')
    (htidy : c.Tidy) (hroom : r.spec.enableCache = false →
      ∀ occasion ∈ among, c.HasRoomFor namespaceName r occasion)
    (hlive : r.Live uid)
    (hphase : s.phase = if r.spec.enableCache then .cacheChecking else .operating)
    (hunbound : s.operationName = none)
    (hkey : r.spec.enableCache = true →
      (s.key.or r.known.key).getD r.spec.template.key = key) :
    SettlesIn settings among namespaceName 3 c' r' ∧
      (¬ (r.spec.enableCache = true ∧ c.Stray namespaceName key uid) →
        SettlesIn settings among namespaceName 2 c' r') := by
  have hspec := hreported.alike.spec
  obtain ⟨hthree, htwo⟩ := @settlesIn_of_coming settings _ uid key _ _ _ hreported.stores
    (htidy.congr hreported.operations)
    (fun hplain o ho => (hroom (hspec ▸ hplain) o ho).reported hreported)
    (hlive.alike hreported.alike)
    (by rw [hreported.phase, hphase, hspec]) (hreported.operationName.trans hunbound)
    (fun hcaching => by
      rw [soughtKey, hreported.key, hspec]
      exact hkey (hspec ▸ hcaching))
  exact ⟨hthree, fun hstray => htwo fun ⟨hcaching, hstray'⟩ =>
    hstray ⟨hspec ▸ hcaching, hreported.stray hstray'⟩⟩

/-! ### The first reconcile -/

/-- The key of the pool that a requirement is to search. -/
def poolKey (r : Requirement) : String :=
  if r.known.phase = .initial then r.spec.template.key else soughtKey r r.known

/--
A requirement with caching, which has yet to begin its search, is bound to nothing that is there,
and yet it holds an operation of its pool, while there is no cache for that.
-/
structure Strays (c : Cluster) (namespaceName : String) (r : Requirement) (uid : String) :
    Prop where
  caching : r.spec.enableCache = true
  idle : r.known.phase ≠ .cacheChecking
  unattached : ¬ c.Attached namespaceName r uid
  stray : c.Stray namespaceName (poolKey r) uid

/-- What a requirement comes to in its first reconcile. -/
def Begins (settings : Settings) (among : Set Occasion) (namespaceName : String) (c : Cluster)
    (r : Requirement) (uid : String) : Prop :=
  ∀ occasion ∈ among, occasion.now.Valid → ∃ action c' r',
    Round settings occasion namespaceName c r action c' r' ∧
      SettlesIn settings among namespaceName 3 c' r' ∧
      (¬ Strays c namespaceName r uid → SettlesIn settings among namespaceName 2 c' r')

theorem SettlesIn.begins (hsettles : SettlesIn settings among namespaceName n c r)
    (h : c.Stores namespaceName r) (hle : n ≤ 3) : Begins settings among namespaceName c r uid := by
  intro occasion hmem hnow
  obtain ⟨action, c', r', hround, -, hrest⟩ := (hsettles.mono h hle).round h hmem hnow
  exact ⟨action, c', r', hround, hrest.succ hround.stores, fun _ => hrest⟩

/-- A requirement that starts over, or starts, is to come to an operation next. -/
theorem begins_of_coming (htidy : c.Tidy)
    (hroom : r.spec.enableCache = false →
      ∀ occasion ∈ among, c.HasRoomFor namespaceName r occasion) (hlive : r.Live uid)
    (hphase : r.known.phase ≠ .cacheChecking) (hunattached : ¬ c.Attached namespaceName r uid)
    (hcoming : ∀ occasion ∈ among, occasion.now.Valid → ∃ action calls c' r' s,
      (plan settings occasion r).Performs namespaceName c action calls c' ∧
      c.Reported namespaceName r s c' r' ∧
      s.phase = (if r.spec.enableCache then .cacheChecking else .operating) ∧
      s.operationName = none ∧
      (r.spec.enableCache = true →
        (s.key.or r.known.key).getD r.spec.template.key = poolKey r)) :
    Begins settings among namespaceName c r uid := by
  intro occasion hmem hnow
  obtain ⟨action, calls, c', r', s, hperforms, hreported, hnext, hunbound, hkey⟩ :=
    hcoming occasion hmem hnow
  obtain ⟨hthree, htwo⟩ :=
    settlesIn_of_reported_coming hreported htidy hroom hlive hnext hunbound hkey
  exact ⟨action, c', r', ⟨⟨calls, hperforms⟩, hreported.stores, hreported.alike⟩, hthree,
    fun hstrays => htwo fun ⟨hcaching, hstray⟩ =>
      hstrays ⟨hcaching, hphase, hunattached, hstray⟩⟩

theorem not_attached_of_unbound (hunbound : r.known.operationName = none) :
    ¬ c.Attached namespaceName r uid := by
  rintro ⟨operation, op, hbound, -⟩
  rw [hunbound] at hbound
  cases hbound

/-- A requirement that was taken in before goes on searching by its key. -/
theorem key_of_loss (hphase : r.known.phase ≠ .initial) :
    (r.known.key.or r.known.key).getD r.spec.template.key = poolKey r := by
  rw [Option.or_self, poolKey, if_neg hphase]
  rfl

theorem begins_of_initial (h : c.Stores namespaceName r) (htidy : c.Tidy)
    (hroom : r.spec.enableCache = false →
      ∀ occasion ∈ among, c.HasRoomFor namespaceName r occasion) (hlive : r.Live uid)
    (hphase : r.known.phase = .initial) (hunbound : r.known.operationName = none) :
    Begins settings among namespaceName c r uid := by
  refine begins_of_coming htidy hroom hlive (by simp [hphase])
    (not_attached_of_unbound hunbound) fun occasion _ hnow => ?_
  obtain ⟨calls, c', r', hperforms, hreported⟩ :=
    @plan_performs_initial settings occasion _ _ _ h hnow (hlive.from_ hphase)
  refine ⟨_, calls, c', r', _, hperforms, hreported, intake_phase r occasion.now,
    (intake_operationName r occasion.now).trans hunbound, fun hcaching => ?_⟩
  rw [intake, if_pos hcaching, poolKey, if_pos hphase]
  rfl

/-- A requirement with an operation to look at finds it, or starts over. -/
theorem begins_of_bound (h : c.Stores namespaceName r) (htidy : c.Tidy)
    (hroom : r.spec.enableCache = false →
      ∀ occasion ∈ among, c.HasRoomFor namespaceName r occasion) (hlive : r.Live uid)
    (hphase : r.known.phase = .operating ∨ r.known.phase = .ready) {operation : String}
    (hbound : r.known.operationName = some operation) :
    Begins settings among namespaceName c r uid := by
  by_cases hattached : c.Attached namespaceName r uid
  · exact (settlesIn_one_of_attached h hlive hphase hattached).begins h (by decide)
  · have hlost : ∀ op, c.operation? namespaceName operation = some op →
        op.metadata.findOwner? uid = none := by
      intro op hop
      by_contra howner
      exact hattached ⟨operation, op, hbound, hop, Option.isSome_iff_ne_none.2 howner⟩
    have hsearches : r.known.phase ≠ .cacheChecking := by
      rcases hphase with hphase | hphase <;> simp [hphase]
    have hknown : r.known.phase ≠ .initial := by
      rcases hphase with hphase | hphase <;> simp [hphase]
    refine begins_of_coming htidy hroom hlive hsearches hattached fun occasion _ hnow => ?_
    obtain ⟨message, c', r', hperforms, hreported⟩ := @plan_performs_lost settings _ _ _ _ _ _ h
      hnow (hphase.imp hlive.from_ hlive.from_) hlive.uid hbound hlost
    exact ⟨_, _, c', r', _, hperforms, hreported, rfl, rfl, fun _ => key_of_loss hknown⟩

/-- A requirement that is ready by nothing starts over. -/
theorem begins_of_unserved (h : c.Stores namespaceName r) (htidy : c.Tidy)
    (hroom : r.spec.enableCache = false →
      ∀ occasion ∈ among, c.HasRoomFor namespaceName r occasion) (hlive : r.Live uid)
    (hphase : r.known.phase = .ready) (hunbound : r.known.operationName = none) :
    Begins settings among namespaceName c r uid := by
  refine begins_of_coming htidy hroom hlive (by simp [hphase])
    (not_attached_of_unbound hunbound) fun occasion _ hnow => ?_
  obtain ⟨message, c', r', hperforms, hreported⟩ :=
    @plan_performs_unserved settings _ _ _ _ h hnow (hlive.from_ hphase) hunbound
  exact ⟨_, _, c', r', _, hperforms, hreported, rfl, rfl,
    fun _ => key_of_loss (by simp [hphase])⟩

/-- A requirement that operates by nothing turns to its pool, or makes its own operation. -/
theorem begins_of_unbound (h : c.Stores namespaceName r) (htidy : c.Tidy)
    (hroom : r.spec.enableCache = false →
      ∀ occasion ∈ among, c.HasRoomFor namespaceName r occasion) (hlive : r.Live uid)
    (hphase : r.known.phase = .operating) (hunbound : r.known.operationName = none) :
    Begins settings among namespaceName c r uid := by
  cases hcaching : r.spec.enableCache with
  | false =>
    exact (settlesIn_two_of_plain h htidy (hroom hcaching) hlive hcaching hphase hunbound).begins h
      (by decide)
  | true =>
    refine begins_of_coming htidy hroom hlive (by simp [hphase])
      (not_attached_of_unbound hunbound) fun occasion _ hnow => ?_
    obtain ⟨c', r', hperforms, hreported⟩ :=
      @plan_performs_unbound settings occasion _ _ _ h (hlive.from_ hphase) hunbound hcaching
    exact ⟨_, _, c', r', _, hperforms, hreported, by rw [hcaching]; rfl, hunbound,
      fun _ => key_of_loss (by simp [hphase])⟩

/-- Every requirement that is to be advanced comes to rest, wherever it stands. -/
theorem begins (h : c.Stores namespaceName r) (htidy : c.Tidy)
    (hroom : r.spec.enableCache = false →
      ∀ occasion ∈ among, c.HasRoomFor namespaceName r occasion) (hlive : r.Live uid)
    (hinitial : r.known.phase = .initial → r.known.operationName = none) :
    Begins settings among namespaceName c r uid := by
  have hleaving (hphase : r.known.phase = .deleting ∨ r.known.phase = .deleted) :
      SettlesIn settings among namespaceName 0 c r := rests_leaving h hlive hphase
  cases hphase : r.known.phase with
  | initial => exact begins_of_initial h htidy hroom hlive hphase (hinitial hphase)
  | cacheChecking =>
    exact (settlesIn_of_searching h htidy hlive hphase rfl).1.begins h le_rfl
  | operating =>
    cases hbound : r.known.operationName with
    | some operation => exact begins_of_bound h htidy hroom hlive (.inl hphase) hbound
    | none => exact begins_of_unbound h htidy hroom hlive hphase hbound
  | ready =>
    cases hbound : r.known.operationName with
    | some operation => exact begins_of_bound h htidy hroom hlive (.inr hphase) hbound
    | none => exact begins_of_unserved h htidy hroom hlive hphase hbound
  | deleting => exact (hleaving (.inl hphase)).begins h (by decide)
  | deleted => exact (hleaving (.inr hphase)).begins h (by decide)

end Reconcile

/-! ### One reconcile after the other -/

namespace Rehearsal

/--
One reconcile of a stored requirement in which nothing goes wrong: its result, its calls and the
cluster afterwards.
-/
def round (settings : Settings) (namespaceName name : String) (occasion : Occasion)
    (c : Cluster) : Except Error Action × List Call × Cluster :=
  match c.requirement? namespaceName name with
  | some r =>
    let run := reconcile settings occasion (calm c) r
    (run.1, run.2.1.calls, run.2.2.cluster)
  | none => (.ok .awaitChange, [], c)

/-- The cluster before each of the reconciles that follow each other. -/
def clusterAt (settings : Settings) (namespaceName name : String) (occasions : ℕ → Occasion)
    (c : Cluster) : ℕ → Cluster
  | 0 => c
  | n + 1 =>
    (round settings namespaceName name (occasions n)
      (clusterAt settings namespaceName name occasions c n)).2.2

/-- Each of the reconciles that follow each other. -/
def roundAt (settings : Settings) (namespaceName name : String) (occasions : ℕ → Occasion)
    (c : Cluster) (n : ℕ) : Except Error Action × List Call × Cluster :=
  round settings namespaceName name (occasions n)
    (clusterAt settings namespaceName name occasions c n)

variable {settings : Settings} {namespaceName name uid : String} {occasion : Occasion}
  {occasions : ℕ → Occasion} {c c' : Cluster} {r r' : Requirement} {action : Action}

theorem round_of_performs (h : c.Stores namespaceName r)
    (hat : r.metadata.isAt namespaceName name = true) {calls : List Call}
    (hperforms : (Reconcile.plan settings occasion r).Performs namespaceName c action calls c') :
    round settings namespaceName name occasion c = (.ok action, calls, c') := by
  obtain ⟨trace, s, hreconcile, rfl, rfl⟩ := reconcile_of_performs hperforms
  unfold round
  rw [h.of_alike (.refl r) hat]
  simp only [hreconcile]

/-- A requirement that comes to rest does so, by one reconcile after the other. -/
theorem exists_settlesIn (hnow : ∀ n, (occasions n).now.Valid) {k m : ℕ}
    (h : (clusterAt settings namespaceName name occasions c m).Stores namespaceName r)
    (hat : r.metadata.isAt namespaceName name = true)
    (hsettles : SettlesIn settings (Set.range occasions) namespaceName k
      (clusterAt settings namespaceName name occasions c m) r) (n : ℕ) :
    ∃ r', (clusterAt settings namespaceName name occasions c (m + n)).Stores namespaceName r' ∧
      r'.metadata.isAt namespaceName name = true ∧
      SettlesIn settings (Set.range occasions) namespaceName (k - n)
        (clusterAt settings namespaceName name occasions c (m + n)) r' := by
  induction n with
  | zero => exact ⟨r, h, hat, hsettles⟩
  | succ n ih =>
    obtain ⟨r, h, hat, hsettles⟩ := ih
    obtain ⟨action, c', r', ⟨⟨calls, hperforms⟩, hstores, halike⟩, -, hrest⟩ :=
      hsettles.round h (Set.mem_range_self _) (hnow (m + n))
    have hround := round_of_performs h hat hperforms
    have hnext : clusterAt settings namespaceName name occasions c (m + (n + 1)) = c' :=
      congrArg (fun x => x.2.2) hround
    rw [hnext]
    exact ⟨r', hstores, halike.isAt hat, hrest⟩

/-- From then on each reconcile waits, and writes nothing once the requirement is at rest. -/
theorem roundAt_of_settlesIn (hnow : ∀ n, (occasions n).now.Valid) {k m : ℕ}
    (h : (clusterAt settings namespaceName name occasions c m).Stores namespaceName r)
    (hat : r.metadata.isAt namespaceName name = true)
    (hsettles : SettlesIn settings (Set.range occasions) namespaceName k
      (clusterAt settings namespaceName name occasions c m) r) (n : ℕ) :
    (∃ action, (roundAt settings namespaceName name occasions c (m + n)).1 = .ok action ∧
      Waits settings action) ∧
    (k ≤ n → ∀ call ∈ (roundAt settings namespaceName name occasions c (m + n)).2.1,
      call.isMutation = false) := by
  obtain ⟨r, h, hat, hsettles⟩ := exists_settlesIn hnow h hat hsettles n
  refine ⟨?_, fun hle => ?_⟩
  · obtain ⟨action, c', r', ⟨⟨calls, hperforms⟩, -, -⟩, hwaits, -⟩ :=
      hsettles.round h (Set.mem_range_self _) (hnow (m + n))
    exact ⟨action, congrArg Prod.fst (round_of_performs h hat hperforms), hwaits⟩
  · rw [Nat.sub_eq_zero_of_le hle] at hsettles
    obtain ⟨action, calls, c', hperforms, hreads, -⟩ := hsettles _ (hnow (m + n))
    rw [roundAt, round_of_performs h hat hperforms]
    exact hreads

end Rehearsal

/--
A requirement that is to be advanced is reconciled over and over, nothing goes wrong and nobody else
changes anything. Each reconcile succeeds, and from the fifth on none writes anything. None does
from the fourth on, unless the requirement has yet to begin its search and holds an operation of a
pool without a cache. Two that follow each other are never both to be followed at once.
-/
theorem settles_after_four {settings : Settings} {occasions : ℕ → Occasion}
    {namespaceName name uid : String} {c : Cluster} {r : Requirement}
    (hstored : c.requirement? namespaceName name = some r)
    (hinstants : ∀ x ∈ c.requirements, x.Timely) (htidy : c.Tidy) (hlive : r.Live uid)
    (hinitial : r.known.phase = .initial → r.known.operationName = none)
    (hroom : r.spec.enableCache = false → ∀ n, c.HasRoomFor namespaceName r (occasions n))
    (hnow : ∀ n, (occasions n).now.Valid) :
    let rounds := Rehearsal.roundAt settings namespaceName name occasions c
    (∀ n, ∃ action, (rounds n).1 = .ok action) ∧
    (∀ n, 4 ≤ n → ∀ call ∈ (rounds n).2.1, call.isMutation = false) ∧
    (¬ Strays c namespaceName r uid →
      ∀ n, 3 ≤ n → ∀ call ∈ (rounds n).2.1, call.isMutation = false) ∧
    (settings.cachePoll ≠ .zero → settings.readinessPoll ≠ .zero →
      settings.readyResync ≠ .zero →
      ∀ n, (rounds n).1 = .ok (.requeue .zero) → (rounds (n + 1)).1 ≠ .ok (.requeue .zero)) := by
  intro rounds
  have h : c.Stores namespaceName r := .of_stored hstored hinstants
  have hat := (Cluster.mem_of_requirement? hstored).2
  obtain ⟨action, c', r', ⟨⟨calls, hperforms⟩, hstores, halike⟩, hthree, htwo⟩ :=
    @begins settings _ _ _ _ (Set.range occasions) h htidy
      (fun hplain => Set.forall_mem_range.2 (hroom hplain)) hlive hinitial _
      (Set.mem_range_self 0) (hnow 0)
  have hfirst : rounds 0 = (.ok action, calls, c') := Rehearsal.round_of_performs h hat hperforms
  have hnext : Rehearsal.clusterAt settings namespaceName name occasions c 1 = c' :=
    congrArg (fun x => x.2.2) hfirst
  rw [← hnext] at hstores hthree htwo
  have hlater := Rehearsal.roundAt_of_settlesIn hnow hstores (halike.isAt hat) hthree
  have hone (n : ℕ) : 1 + n = n + 1 := Nat.add_comm 1 n
  refine ⟨fun n => ?_, fun n hn => ?_, fun hstrays n hn => ?_, fun hcache hready hresync n _ => ?_⟩
  · cases n with
    | zero => exact ⟨action, congrArg Prod.fst hfirst⟩
    | succ n =>
      obtain ⟨⟨action, hresult, -⟩, -⟩ := hlater n
      rw [hone] at hresult
      exact ⟨action, hresult⟩
  · obtain ⟨n, rfl⟩ : ∃ m, n = 1 + m := ⟨n - 1, by omega⟩
    exact (hlater n).2 (by omega)
  · obtain ⟨n, rfl⟩ : ∃ m, n = 1 + m := ⟨n - 1, by omega⟩
    exact (Rehearsal.roundAt_of_settlesIn hnow hstores (halike.isAt hat) (htwo hstrays) n).2
      (by omega)
  · obtain ⟨⟨action, hresult, hwaits⟩, -⟩ := hlater n
    rw [hone] at hresult
    rw [show (rounds (n + 1)).1 = .ok action from hresult]
    intro hzero
    cases hwaits with
    | change => cases hzero
    | cachePoll => exact hcache (Action.requeue.inj (Except.ok.inj hzero))
    | readinessPoll => exact hready (Action.requeue.inj (Except.ok.inj hzero))
    | readyResync => exact hresync (Action.requeue.inj (Except.ok.inj hzero))

/-! ### Four reconciles -/

/-- A requirement whose status says that it operates, though by nothing. -/
def strayRequirement : Requirement :=
  { sampleRequirement with
    metadata :=
      { sampleRequirement.metadata with
        finalizers := some [requirementFinalizer]
        generation := some 1 }
    status := some { phase := .operating, key := some "key", observedGeneration := some 1 } }

/-- The requirement holds an operation of a pool whose cache is gone. -/
def strayCluster : Cluster where
  requirements := [strayRequirement]
  operations :=
    [(warmOperation "dev" "key").owned
      ((warmOperation "dev" "key").metadata.withOwner
        (holderReference strayRequirement "sample" false))]

theorem strayRequirement_live : strayRequirement.Live "sample" :=
  ⟨rfl, validate_sampleRequirement, rfl, rfl⟩

theorem strayCluster_timely : ∀ x ∈ strayCluster.requirements, x.Timely := by
  intro x hx
  rw [List.mem_singleton.1 hx]
  exact ⟨sampleRequirement_timely.1, fun _ h => nomatch h⟩

theorem strayCluster_tidy : strayCluster.Tidy := by
  refine ⟨fun op hop => ?_, List.nodup_singleton _, fun op hop => ?_⟩
  · rw [List.mem_singleton.1 hop]
    exact ⟨"dev", "warm", rfl⟩
  · rw [List.mem_singleton.1 hop]
    rfl

theorem settles_after_four_sample : strayRequirement.known.operationName = none ∧
    strayCluster.requirement? "dev" "sample" = some strayRequirement ∧
    ∀ n, 4 ≤ n → ∀ call ∈ (Rehearsal.roundAt {} "dev" "sample" (fun _ => sampleOccasion)
      strayCluster n).2.1, call.isMutation = false := by
  have hinitial : strayRequirement.known.phase = .initial →
      strayRequirement.known.operationName = none := fun _ => rfl
  have hroom : strayRequirement.spec.enableCache = false →
      ∀ _ : ℕ, strayCluster.HasRoomFor "dev" strayRequirement sampleOccasion := fun h => nomatch h
  have hnow : sampleOccasion.now.Valid := by decide
  obtain ⟨-, hsettled, -⟩ := @settles_after_four {} (fun _ => sampleOccasion) "dev" "sample"
    "sample" strayCluster strayRequirement rfl strayCluster_timely strayCluster_tidy
    strayRequirement_live hinitial hroom fun _ => hnow
  exact ⟨rfl, rfl, hsettled⟩

/-- Each of the first four reconciles of that requirement writes something. -/
theorem four_reconciles_write :
    strayCluster.requirement? "dev" "sample" = some strayRequirement ∧
    (∀ x ∈ strayCluster.requirements, x.Timely) ∧ strayCluster.Tidy ∧
    strayRequirement.Live "sample" ∧ strayRequirement.known.phase = .operating ∧
    ∀ n < 4, ∃ call ∈ (Rehearsal.roundAt {} "dev" "sample" (fun _ => sampleOccasion)
      strayCluster n).2.1, call.isMutation = true :=
  ⟨rfl, strayCluster_timely, strayCluster_tidy, strayRequirement_live, rfl, by decide +kernel⟩

end WarmPool
