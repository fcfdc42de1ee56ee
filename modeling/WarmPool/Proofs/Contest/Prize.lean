import WarmPool.Proofs.Custody.Claimant
import WarmPool.Proofs.Exclusivity
import WarmPool.Proofs.Selection

/-!
# The prizes of a pool

Requirements compete for the operations of a pool. An operation stays as it is until one of them
claims it, and then it stays won (`Contest.Won`, `Contest.Later`). As all of them claim the first of
what they see, the operations are won in order: no operation that is still free comes before one
that is won (`Contest.Pooled.first`). This is why a requirement never wins two, however old the list
is from which it claims (`Contest.Claims.not_won`).
-/

namespace WarmPool

open Reconcile

/-- A pool for which requirements compete: the cluster at first, and the cache. -/
structure Contest where
  cluster : Cluster
  namespaceName : String
  key : String
  cache : Cache

namespace Contest

variable (x : Contest)

/-- What there is to win: the operations of the pool that can be acquired at first. -/
def prizes : List Operation :=
  Pool.candidates x.cache (x.cluster.listOperations x.namespaceName x.key)

/-- A prize, as a requirement with this UID has won it. -/
structure Won (uid : String) (prize op : Operation) : Prop where
  offered : prize ∈ x.prizes
  entrant : ∃ r ∈ x.cluster.requirements, r.metadata.uid = some uid
  claimed : ∃ (o : OwnerReference) (version : String), o.kind = Kind.requirement.name ∧
    o.uid = uid ∧ o.isController = false ∧
    op = (prize.owned (prize.metadata.withOwner o)).stamped version

/-- The operations in the course of the contest. -/
structure Pooled (c : Cluster) : Prop where
  places : (c.operations.map fun op => op.metadata.place) =
    x.cluster.operations.map fun op => op.metadata.place
  origin : ∀ op ∈ c.operations, op ∈ x.cluster.operations ∨ ∃ uid prize, x.Won uid prize op
  first : ∀ uid prize, ∀ op ∈ c.operations, x.Won uid prize op →
    ∀ free ∈ c.operations, free ∈ x.prizes → Pool.precedes free op = false
  single : ∀ uid prize prize', ∀ op ∈ c.operations, ∀ op' ∈ c.operations,
    x.Won uid prize op → x.Won uid prize' op' → op = op'

/-- What is won stays so, and what is free or newly won was free before. -/
structure Later (c c' : Cluster) : Prop where
  won : ∀ uid prize, ∀ op ∈ c.operations, x.Won uid prize op → op ∈ c'.operations
  free : ∀ op ∈ c'.operations, op ∈ x.prizes → op ∈ c.operations
  fresh : ∀ uid prize, ∀ op ∈ c'.operations, x.Won uid prize op →
    op ∈ c.operations ∨ prize ∈ c.operations

/-- What a list of the pool, read at some time, shows of the operations. -/
structure Listed (c : Cluster) (operations : List Operation) : Prop where
  free : ∀ op ∈ c.operations, op ∈ x.prizes → op ∈ operations
  won : ∀ uid prize, ∀ op ∈ c.operations, x.Won uid prize op → op ∈ operations ∨ prize ∈ operations
  taken : ∀ uid prize, ∀ op ∈ operations, x.Won uid prize op → op ∈ c.operations
  origin : ∀ op ∈ operations,
    op ∈ x.cluster.listOperations x.namespaceName x.key ∨ ∃ uid prize, x.Won uid prize op

variable {x} {c c' : Cluster} {uid uid' : String} {prize prize' op op' : Operation}
  {operations : List Operation}

/-! ### Prizes -/

theorem mem_prizes : op ∈ x.prizes ↔
    op ∈ x.cluster.listOperations x.namespaceName x.key ∧ x.cache.pool.contains op.name = true ∧
      Pool.isAcquirable x.cache op = true := by
  unfold prizes Pool.candidates
  rw [List.mem_filter, List.mem_filter, and_assoc]

theorem mem_operations_of_mem_prizes (h : op ∈ x.prizes) : op ∈ x.cluster.operations :=
  (List.mem_filter.1 (mem_prizes.1 h).1).1

theorem isReady_of_mem_prizes (h : op ∈ x.prizes) : op.isReady = true :=
  decide_eq_true (Pool.isAcquirable_iff.1 (mem_prizes.1 h).2.2).ready

/-- The prizes are all in the namespace of the contest. -/
theorem isAt_of_mem_prizes (hx : x.cluster.Orderly) (h : op ∈ x.prizes) :
    op.metadata.isAt x.namespaceName op.name = true := by
  obtain ⟨namespaceName, name, hat⟩ := hx.placed op (mem_operations_of_mem_prizes h)
  have hlisted := (List.mem_filter.1 (mem_prizes.1 h).1).2
  rw [Bool.and_eq_true, decide_eq_true_iff] at hlisted
  have hsame := (Metadata.namespaceName_of_isAt hat).symm.trans hlisted.1
  rw [← Option.some.inj hsame, show op.name = name from Metadata.anyName_of_isAt hat]
  exact hat

/-- A candidate of a list is a prize if it is an operation as at first. -/
theorem Listed.mem_prizes_of_mem_candidates (h : x.Listed c operations)
    (hop : op ∈ Pool.candidates x.cache operations) : op ∈ x.prizes := by
  obtain ⟨hpool, hacquirable⟩ := List.mem_filter.1 hop
  obtain ⟨hmem, hpool⟩ := List.mem_filter.1 hpool
  rcases h.origin op hmem with hlisted | ⟨uid, prize, hwon⟩
  · exact mem_prizes.2 ⟨hlisted, hpool, hacquirable⟩
  · obtain ⟨o, version, hkind, -, -, rfl⟩ := hwon.claimed
    have hholders := Pool.holders_of_isAcquirable hacquirable
    have hmem : o ∈ (((prize.owned (prize.metadata.withOwner o)).stamped version).holders) :=
      List.mem_filter.2 ⟨List.mem_append_right _ (List.mem_singleton_self o), by simpa using hkind⟩
    rw [hholders] at hmem
    cases hmem

/-- A prize that is listed is a candidate. -/
theorem mem_candidates_of_mem_prizes (hop : op ∈ operations) (hprize : op ∈ x.prizes) :
    op ∈ Pool.candidates x.cache operations := by
  obtain ⟨-, hpool, hacquirable⟩ := mem_prizes.1 hprize
  exact List.mem_filter.2 ⟨List.mem_filter.2 ⟨hop, hpool⟩, hacquirable⟩

/-! ### What is won -/

namespace Won

theorem place (h : x.Won uid prize op) : op.metadata.place = prize.metadata.place := by
  obtain ⟨o, version, -, -, -, rfl⟩ := h.claimed
  rfl

theorem name (h : x.Won uid prize op) : op.name = prize.name := by
  obtain ⟨o, version, -, -, -, rfl⟩ := h.claimed
  rfl

theorem isReady (h : x.Won uid prize op) : op.isReady = true := by
  have hready := isReady_of_mem_prizes h.offered
  obtain ⟨o, version, -, -, -, rfl⟩ := h.claimed
  exact hready

theorem isAt (hx : x.cluster.Orderly) (h : x.Won uid prize op) :
    op.metadata.isAt x.namespaceName op.name = true := by
  rw [Metadata.isAt_congr h.place, h.name]
  exact isAt_of_mem_prizes hx h.offered

/-- It stands in the order where it stood. -/
theorem precedes (h : x.Won uid prize op) (other : Operation) :
    Pool.precedes other op = Pool.precedes other prize := by
  obtain ⟨o, version, -, -, -, rfl⟩ := h.claimed
  rfl

/-- It is listed by the key as it was. -/
theorem mem_listOperations (h : x.Won uid prize op) (hop : op ∈ c.operations) :
    op ∈ c.listOperations x.namespaceName x.key := by
  have hlisted := (List.mem_filter.1 (mem_prizes.1 h.offered).1).2
  obtain ⟨o, version, -, -, -, rfl⟩ := h.claimed
  exact List.mem_filter.2 ⟨hop, hlisted⟩

theorem isClaimedBy (h : x.Won uid prize op) : Pool.isClaimedBy uid op = true := by
  obtain ⟨o, version, hkind, huid, hcontroller, rfl⟩ := h.claimed
  exact Pool.isClaimedBy_iff.2
    ⟨o, List.mem_append_right _ (List.mem_singleton_self o), hkind, huid, hcontroller⟩

/-- The winner is the only requirement among its owners. -/
theorem eq_of_isClaimedBy (h : x.Won uid prize op) (hclaimed : Pool.isClaimedBy uid' op = true) :
    uid' = uid := by
  obtain ⟨o, version, -, huid, -, rfl⟩ := h.claimed
  obtain ⟨o', ho', hkind', huid', -⟩ := Pool.isClaimedBy_iff.1 hclaimed
  rcases List.mem_append.1 ho' with hbefore | hnew
  · have hmem : o' ∈ prize.holders :=
      List.mem_filter.2 ⟨(List.mem_filter.1 hbefore).1, by simpa using hkind'⟩
    rw [Pool.holders_of_isAcquirable (mem_prizes.1 h.offered).2.2] at hmem
    cases hmem
  · rw [List.mem_singleton.1 hnew] at huid'
    exact huid'.symm.trans huid

/-- What is won cannot be acquired any more. -/
theorem not_mem_prizes (h : x.Won uid prize op) : op ∉ x.prizes := by
  intro hop
  have hholders := Pool.holders_of_isAcquirable (mem_prizes.1 hop).2.2
  obtain ⟨o, ho, hkind, -, -⟩ := Pool.isClaimedBy_iff.1 h.isClaimedBy
  have hmem : o ∈ op.holders := List.mem_filter.2 ⟨ho, by simpa using hkind⟩
  rw [hholders] at hmem
  cases hmem

end Won

/-! ### Later states -/

theorem Later.refl (x : Contest) (c : Cluster) : x.Later c c :=
  ⟨fun _ _ _ hop _ => hop, fun _ hop _ => hop, fun _ _ _ hop _ => .inl hop⟩

theorem Later.of_operations_eq (h : c'.operations = c.operations) : x.Later c c' := by
  refine ⟨fun _ _ op hop _ => ?_, fun op hop _ => ?_, fun _ _ op hop _ => .inl ?_⟩
  · rwa [h]
  · rwa [← h]
  · rwa [← h]

theorem Pooled.of_operations_eq (hpool : x.Pooled c) (h : c'.operations = c.operations) :
    x.Pooled c' := by
  obtain ⟨hplaces, horigin, hfirst, hsingle⟩ := hpool
  rw [← h] at hplaces horigin hfirst hsingle
  exact ⟨hplaces, horigin, hfirst, hsingle⟩

/-- A list goes on to show what it showed. -/
theorem Listed.later (h : x.Listed c operations) (hlater : x.Later c c') :
    x.Listed c' operations where
  free op hop hprize := h.free op (hlater.free op hop hprize) hprize
  won uid prize op hop hwon := by
    rcases hlater.fresh uid prize op hop hwon with hbefore | hfree
    · exact h.won uid prize op hbefore hwon
    · exact .inr (h.free prize hfree hwon.offered)
  taken uid prize op hop hwon := hlater.won uid prize op (h.taken uid prize op hop hwon) hwon
  origin := h.origin

/-- A list shows the present state. -/
theorem Pooled.listed (h : x.Pooled c) :
    x.Listed c (c.listOperations x.namespaceName x.key) where
  free op hop hprize := List.mem_filter.2 ⟨hop, (List.mem_filter.1 (mem_prizes.1 hprize).1).2⟩
  won _ _ _ hop hwon := .inl (hwon.mem_listOperations hop)
  taken _ _ _ hop _ := (List.mem_filter.1 hop).1
  origin op hop := by
    obtain ⟨hmem, hlisted⟩ := List.mem_filter.1 hop
    exact (h.origin op hmem).imp_left fun horigin => List.mem_filter.2 ⟨horigin, hlisted⟩

/-! ### Claims -/

/--
A claim that takes effect: by a list which shows nothing that the requirement holds, the first
candidate is claimed, and it is stored as it was.
-/
structure Claims (x : Contest) (c c' : Cluster) (uid : String) (operations : List Operation)
    (old new : Operation) : Prop where
  stored : old ∈ c.operations
  written : c'.operations =
    updateWhere (fun op => op.metadata.isAt x.namespaceName old.name) (fun _ => new) c.operations
  won : x.Won uid old new
  listed : x.Listed c operations
  unheld : Pool.claimedBy? uid operations = none
  selected : Pool.select? x.cache operations = some old

namespace Claims

variable {old new : Operation}

/-- What is stored at the place of the operation is that operation. -/
theorem eq_of_isAt (h : x.Claims c c' uid operations old new) (hx : x.cluster.Orderly)
    (hc : c.Orderly) (hop : op ∈ c.operations)
    (hat : op.metadata.isAt x.namespaceName old.name = true) : op = old :=
  hc.eq_of_isAt hop h.stored hat (isAt_of_mem_prizes hx h.won.offered)

theorem mem_cases (h : x.Claims c c' uid operations old new) (hop : op ∈ c'.operations) :
    op = new ∨ op ∈ c.operations := by
  rw [h.written] at hop
  obtain ⟨b, hb, rfl⟩ := mem_updateWhere.1 hop
  split
  · exact .inl rfl
  · exact .inr hb

/-- Nothing becomes free. -/
theorem mem_of_mem_prizes (h : x.Claims c c' uid operations old new) (hop : op ∈ c'.operations)
    (hprize : op ∈ x.prizes) : op ∈ c.operations := by
  rcases h.mem_cases hop with rfl | hmem
  · exact absurd hprize h.won.not_mem_prizes
  · exact hmem

/-- Nothing that the list shows as free comes before the one that is claimed. -/
theorem not_precedes (h : x.Claims c c' uid operations old new) (hop : op ∈ operations)
    (hprize : op ∈ x.prizes) : Pool.precedes op old = false :=
  Pool.not_precedes_of_select? h.selected (mem_candidates_of_mem_prizes hop hprize)

/--
The requirement has won nothing before: what it had won would be in the list, as won by it or as
free. In the first case nothing would be claimed; in the second, either one would come before the
other, while the one that is claimed is the first of the list and is free still.
-/
theorem not_won (h : x.Claims c c' uid operations old new) (hx : x.cluster.Orderly)
    (hc : c.Orderly) (hpool : x.Pooled c) (hop : op ∈ c.operations) : ¬ x.Won uid prize op := by
  intro hwon
  rcases h.listed.won uid prize op hop hwon with hmem | hmem
  · exact absurd hwon.isClaimedBy (List.find?_eq_none.1 h.unheld op hmem)
  · have hne : prize.name ≠ old.name := by
      intro hname
      have hat := hwon.isAt hx
      rw [hwon.name, hname] at hat
      exact hwon.not_mem_prizes (h.eq_of_isAt hx hc hop hat ▸ h.won.offered)
    have hlater : Pool.precedes prize old = false := h.not_precedes hmem hwon.offered
    have hearlier : Pool.precedes old prize = false := by
      rw [← hwon.precedes]
      exact hpool.first uid prize op hop hwon old h.stored h.won.offered
    rcases Pool.precedes_or_precedes hne with hprecedes | hprecedes
    · exact absurd hlater (by simp [hprecedes])
    · exact absurd hearlier (by simp [hprecedes])

theorem later (h : x.Claims c c' uid operations old new) (hx : x.cluster.Orderly)
    (hc : c.Orderly) : x.Later c c' where
  won uid' prize op hop hwon := by
    rw [h.written]
    refine mem_updateWhere.2 ⟨op, hop, ?_⟩
    rw [if_neg]
    intro hat
    exact hwon.not_mem_prizes (h.eq_of_isAt hx hc hop hat ▸ h.won.offered)
  free op hop hprize := h.mem_of_mem_prizes hop hprize
  fresh uid' prize op hop hwon := by
    rcases h.mem_cases hop with rfl | hmem
    · have heq : prize = old := hx.eq_of_place (mem_operations_of_mem_prizes hwon.offered)
        (mem_operations_of_mem_prizes h.won.offered) (hwon.place.symm.trans h.won.place)
      exact .inr (heq ▸ h.stored)
    · exact .inl hmem

theorem places (h : x.Claims c c' uid operations old new) (hx : x.cluster.Orderly)
    (hc : c.Orderly) : (c'.operations.map fun op => op.metadata.place) =
      c.operations.map fun op => op.metadata.place := by
  rw [h.written]
  unfold updateWhere
  rw [List.map_map]
  refine List.map_congr_left fun op hop => ?_
  rw [Function.comp_apply]
  by_cases hat : op.metadata.isAt x.namespaceName old.name = true
  · rw [if_pos hat, h.won.place, h.eq_of_isAt hx hc hop hat]
  · rw [if_neg hat]

/-- A claim keeps what holds of the operations. -/
theorem pooled (h : x.Claims c c' uid operations old new) (hx : x.cluster.Orderly)
    (hc : c.Orderly) (hpool : x.Pooled c) : x.Pooled c' where
  places := (h.places hx hc).trans hpool.places
  origin op hop := by
    rcases h.mem_cases hop with rfl | hmem
    · exact .inr ⟨uid, old, h.won⟩
    · exact hpool.origin op hmem
  first uid' prize op hop hwon free hfree hprize := by
    have hbefore := h.mem_of_mem_prizes hfree hprize
    rcases h.mem_cases hop with rfl | hmem
    · rw [h.won.precedes]
      exact h.not_precedes (h.listed.free free hbefore hprize) hprize
    · exact hpool.first uid' prize op hmem hwon free hbefore hprize
  single uid' prize prize' op hop op' hop' hwon hwon' := by
    rcases h.mem_cases hop with rfl | hmem
    · rcases h.mem_cases hop' with rfl | hmem'
      · rfl
      · obtain rfl := h.won.eq_of_isClaimedBy hwon.isClaimedBy
        exact absurd hwon' (h.not_won hx hc hpool hmem')
    · rcases h.mem_cases hop' with rfl | hmem'
      · obtain rfl := h.won.eq_of_isClaimedBy hwon'.isClaimedBy
        exact absurd hwon (h.not_won hx hc hpool hmem)
      · exact hpool.single uid' prize prize' op hmem op' hmem' hwon hwon'

end Claims

end Contest

end WarmPool
