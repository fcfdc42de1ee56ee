import Mathlib.Data.List.Perm.Subperm
import WarmPool.Proofs.Selection
import WarmPool.Proofs.Stock

/-!
# One requirement at most

Any number of reconciles, on any snapshots and on reads as old as they may be, never put two
requirements on one operation. A claim that takes effect finds the very operation that was selected,
so that operation can be acquired at that instant (`World.Consistent.acquirable_of_claim`), and no
other write adds a requirement (`exclusive_claims`).
-/

namespace WarmPool

open Reconcile

/-- The owners of an operation that are requirements. -/
def Operation.holders (op : Operation) : List OwnerReference :=
  op.metadata.ownersOfKind Kind.requirement.name

/--
Any requirement may be reconciled at any time from any snapshot, reads may be old, and others write
what they want but never add a requirement to the owners of an operation.
-/
def contention : Surroundings where
  starts _ _ _ := True
  views w view := view = w.cluster ∨ view ∈ w.former
  license :=
    { requirements := fun _ _ => True
      write := fun old new => List.Subperm new.holders old.holders
      make := fun new => new.holders = [] }

theorem contention_faithful : contention.Faithful := fun _ _ h => h

/-! ### Owners written -/

namespace Metadata

variable {m : Metadata} {kind uid : String}

/-- With one more owner, an object that had none of a kind has that one at most. -/
theorem length_filter_withOwner_le (h : m.ownersOfKind kind = []) (r : OwnerReference) :
    ((m.withOwner r).filter fun o => o.kind = kind).length ≤ 1 := by
  -- Of the kind there was none, and there is none among those that are kept.
  have hnone : (m.withoutOwner r.uid).filter (fun o => o.kind = kind) = [] := by
    unfold withoutOwner
    rw [List.filter_comm]
    exact congrArg (List.filter _) h
  unfold withOwner
  rw [List.filter_append, hnone, List.nil_append]
  exact List.length_filter_le _ _

theorem length_filter_withoutOwner_le (m : Metadata) (kind uid : String) :
    ((m.withoutOwner uid).filter fun o => o.kind = kind).length ≤ (m.ownersOfKind kind).length :=
  (List.filter_sublist.filter _).length_le

end Metadata

/-- What can be acquired is held by no requirement. -/
theorem Pool.holders_of_isAcquirable {cache : Cache} {op : Operation}
    (h : isAcquirable cache op = true) : op.holders = [] := by
  have hunheld := (isAcquirable_iff.1 h).unheld
  exact List.filter_eq_nil_iff.2 fun o ho hkind => hunheld o ho (of_decide_eq_true hkind)

namespace Task

variable {t : Task} {old new : Operation}

/-- A reconcile leaves no second requirement on an operation that it writes. -/
theorem Replaces.length_holders_le (h : t.Replaces old new) (hold : old.holders.length ≤ 1) :
    new.holders.length ≤ 1 := by
  cases h with
  | claim _ _ _ _ _ hacquirable hnew =>
    subst hnew
    exact Metadata.length_filter_withOwner_le (Pool.holders_of_isAcquirable hacquirable) _
  | release _ _ hnew =>
    subst hnew
    exact (Metadata.length_filter_withoutOwner_le _ _ _).trans hold

theorem Makes.length_holders_le (h : t.Makes new) : new.holders.length ≤ 1 := by
  obtain ⟨uid, -, howners⟩ := h
  unfold Operation.holders Metadata.ownersOfKind
  rw [howners]
  exact List.length_filter_le _ _

end Task

/-! ### What holds of one place -/

/-- The operation of a place has one requirement among its owners at most. -/
def Cluster.AtMostOneHolder (c : Cluster) (namespaceName name : String) : Prop :=
  ∀ op, c.operation? namespaceName name = some op → op.holders.length ≤ 1

theorem Cluster.AtMostOneHolder.changes {c c' : Cluster} {namespaceName name : String}
    {write : Operation → Operation → Prop} {make : Operation → Prop}
    (h : c.AtMostOneHolder namespaceName name) (hc : c.Orderly) (hchanges : c.Changes write make c')
    (hwrite : ∀ old new, write old new → old.holders.length ≤ 1 → new.holders.length ≤ 1)
    (hmake : ∀ new, make new → new.holders.length ≤ 1) :
    c'.AtMostOneHolder namespaceName name := by
  -- The operation of the place was there, or takes the place of one that was, or is new.
  intro op hop
  obtain ⟨hmem, hat⟩ := mem_of_operation? hop
  rcases hchanges.mem_cases hmem with hmem | ⟨-, ⟨old, hold, hplace, hw⟩ | hm⟩
  · exact h op (hc.operation?_eq hmem hat)
  · have holdAt : old.metadata.isAt namespaceName name = true := by
      rwa [Metadata.isAt_congr hplace]
    exact hwrite old op hw (h old (hc.operation?_eq hold holdAt))
  · exact hmake op hm

/-- No step puts a second requirement on the operation of a place. -/
theorem atMostOneHolder_step {w w' : World} {namespaceName name : String} (hw : w.Consistent)
    (h : w.cluster.AtMostOneHolder namespaceName name) (hstep : Step contention w w') :
    w'.cluster.AtMostOneHolder namespaceName name := by
  cases hstep with
  | start _ _ => exact h
  | event _ _ => exact h
  | measure _ _ => exact h
  | stop _ => exact h
  | call fate htasks hrest _ hroom =>
    obtain rfl := Task.namespaceName_of_call hrest
    exact h.changes hw.orderly (hw.call_changes (World.mem_tasks htasks) hrest _ hroom)
      (fun _ _ hwrite => hwrite.2.length_holders_le) fun _ hmakes => hmakes.length_holders_le
  | others hothers =>
    refine h.changes hw.orderly (Cluster.others_changes hothers) ?_ ?_
    · rintro old new ⟨op, version, hwrite, rfl⟩ hold
      exact (List.Subperm.length_le hwrite).trans hold
    · rintro new ⟨op, version, hmake, rfl⟩
      have hnone : (op.stamped version).holders = [] := hmake
      rw [hnone]
      exact Nat.zero_le _

/-! ### Where a claim lands -/

/--
A write of owners that adds the requirement of its reconcile, and takes effect, lands on an
operation that can be acquired from the pool of a cache that the reconcile read.
-/
theorem World.Consistent.acquirable_of_claim {w : World} (h : w.Consistent) {t : Task}
    (ht : t ∈ w.tasks) {name seen uid : String} {owners : List OwnerReference}
    {next : Except Error Unit → Plan Action}
    (hrest : t.rest = .call t.namespaceName (.patchOwners name seen owners) next)
    (huid : t.requirement.metadata.uid = some uid) (hclaim : ∃ r ∈ owners, r.uid = uid)
    (heffect : (w.cluster.patchOwners t.namespaceName name seen owners).1 = .ok ()) :
    ∃ op, w.cluster.operation? t.namespaceName name = some op ∧
      ∃ cacheName cache, (⟨.getCache cacheName, .ok (some cache)⟩ : Answered) ∈ t.past ∧
        Pool.isAcquirable cache op = true := by
  obtain ⟨op, _, hstored, -, rfl, hreplaces⟩ := h.replaces_stored ht hrest heffect
  refine ⟨op, hstored, ?_⟩
  cases hreplaces with
  | claim _ _ hpast _ _ hacquirable _ =>
    exact ⟨_, _, hpast ▸ List.mem_cons_of_mem _ List.mem_cons_self, hacquirable⟩
  | release _ huid' hnew =>
    -- What is handed back has no reference to the requirement, but a claim adds one.
    obtain ⟨r, hr, hruid⟩ := hclaim
    have howners : owners = op.metadata.withoutOwner uid := by
      rw [huid, Option.some.injEq] at huid'
      rw [huid']
      exact congrArg (fun op : Operation => op.metadata.owners) hnew
    exact absurd hruid (Metadata.uid_ne_of_mem_withoutOwner (howners ▸ hr))

/-! ### The whole run -/

/--
Whatever reconciles run and however they interleave: an operation that has one requirement at most
among its owners at first has one at most ever after, and a claim that takes effect lands on an
operation that is ready, transferable, not being deleted, controlled by the cache that the claimant
read and held by no requirement at that instant.
-/
theorem exclusive_claims {c : Cluster} (hc : c.Orderly) {w : World}
    (h : Reachable contention { cluster := c } w) :
    (∀ namespaceName name, c.AtMostOneHolder namespaceName name →
      w.cluster.AtMostOneHolder namespaceName name) ∧
    ∀ t ∈ w.tasks, ∀ n name seen uid owners next,
      t.rest = .call n (.patchOwners name seen owners) next →
      t.requirement.metadata.uid = some uid → (∃ r ∈ owners, r.uid = uid) →
      (w.cluster.patchOwners n name seen owners).1 = .ok () →
      ∃ op, w.cluster.operation? n name = some op ∧
        op.isReady = true ∧ op.isTransferable = true ∧ op.metadata.deletionTimestamp = none ∧
        op.holders = [] ∧ ∃ cacheName cache owner,
          (⟨.getCache cacheName, .ok (some cache)⟩ : Answered) ∈ t.past ∧
            op.metadata.controllerOwner? = some owner ∧ Pool.ownedByCache cache owner = true := by
  have hconsistent : w.Consistent :=
    h.induction_of (World.consistent_of_orderly hc) fun _ _ hw hstep =>
      hw.step contention_faithful hstep
  constructor
  · -- What holds of one place is kept by every step of a consistent world.
    intro namespaceName name hfirst
    have hboth := h.induction_of
      (P := fun w => w.Consistent ∧ w.cluster.AtMostOneHolder namespaceName name)
      ⟨World.consistent_of_orderly hc, hfirst⟩ fun _ _ hw hstep =>
        ⟨hw.1.step contention_faithful hstep, atMostOneHolder_step hw.1 hw.2 hstep⟩
    exact hboth.2
  · intro t ht n name seen uid owners next hrest huid hclaim heffect
    obtain rfl := Task.namespaceName_of_call hrest
    obtain ⟨op, hstored, cacheName, cache, hread, hacquirable⟩ :=
      hconsistent.acquirable_of_claim ht hrest huid hclaim heffect
    -- What is said of the operation is what it takes to be acquired, read off one by one.
    have hholders := Pool.holders_of_isAcquirable hacquirable
    unfold Pool.isAcquirable at hacquirable
    simp only [Bool.and_eq_true, Option.isNone_iff_eq_none] at hacquirable
    obtain ⟨⟨⟨⟨hready, htransferable⟩, hkept⟩, -⟩, hcontrolled⟩ := hacquirable
    obtain ⟨owner, howner, howned⟩ : ∃ owner, op.metadata.controllerOwner? = some owner ∧
        Pool.ownedByCache cache owner = true := by
      cases hcontroller : op.metadata.controllerOwner? with
      | none =>
        rw [hcontroller] at hcontrolled
        cases hcontrolled
      | some owner =>
        rw [hcontroller] at hcontrolled
        exact ⟨owner, rfl, hcontrolled⟩
    exact ⟨op, hstored, hready, htransferable, hkept, hholders, cacheName, cache, owner, hread,
      howner, howned⟩

/-- A requirement that comes to claim the operation of a stocked pool. -/
theorem exclusive_claims_sample :
    ∃ w, Reachable contention
        { cluster := Cluster.stocked "dev" "key" (searchingRequirement (some "key")) } w ∧
      w.cluster.AtMostOneHolder "dev" "warm" ∧
      ∃ t ∈ w.tasks, ∃ seen owners next,
        t.rest = .call t.namespaceName (.patchOwners "warm" seen owners) next ∧
        ∃ op, w.cluster.operation? "dev" "warm" = some op ∧ op.isReady = true ∧
          op.holders = [] := by
  let r := searchingRequirement (some "key")
  let c := Cluster.stocked "dev" "key" r
  have hstock : c.Stocked "dev" "key" := Cluster.stocked_isStocked
  have hat : r.metadata.isAt "dev" "sample" = true := by decide
  have hstarts (former : List Cluster) :
      contention.starts { cluster := c, former := former } sampleOccasion r := trivial
  have hfirst : Leads contention { cluster := c } c [] := ⟨[], .refl⟩
  obtain ⟨t, ⟨former, hreach⟩, hsame, next, hrest⟩ :=
    hfirst.claimStock {} (fun _ => .inl rfl) hstarts hstock
      ⟨rfl, validate_sampleRequirement, rfl⟩ hat rfl rfl
  obtain ⟨hone, hclaims⟩ := exclusive_claims Cluster.stocked_orderly hreach
  have hunheld : c.AtMostOneHolder "dev" "warm" := by
    intro op hop
    rw [Option.some.inj (hop.symm.trans hstock.operation?)]
    exact Nat.zero_le 1
  have hnamespace : t.namespaceName = "dev" := Task.namespaceName_eq (hsame ▸ hat)
  have heffect : (c.patchOwners t.namespaceName "warm" (natText 1)
      ((warmOperation "dev" "key").metadata.withOwner (holderReference r "sample" false))).1 =
      .ok () := by
    rw [hnamespace, Cluster.patchOwners_eq, hstock.operation?]
    rfl
  obtain ⟨op, hop, hready, -, -, hholders, -⟩ :=
    hclaims t List.mem_cons_self _ "warm" _ "sample" _ next hrest (hsame ▸ rfl)
      ⟨_, List.mem_append_right _ List.mem_cons_self, rfl⟩ heffect
  exact ⟨_, hreach, hone "dev" "warm" hunheld, t, List.mem_cons_self, _, _, next, hrest, op,
    hnamespace ▸ hop, hready, hholders⟩

end WarmPool
