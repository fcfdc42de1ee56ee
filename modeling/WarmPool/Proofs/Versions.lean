import WarmPool.Proofs.Numeral
import WarmPool.Proofs.Place
import WarmPool.Proofs.System

/-!
# Resource versions

Why an operation that still has the version seen is the operation seen. Every write gives an
operation a version that none had before, so what a cluster stores under a place and a version never
changes (`Cluster.Recalls`), and a write of owners that takes effect lands on exactly the operation
that was read (`World.Consistent.eq_of_stored`). All changes of operations, by calls and by others,
are of the four kinds of `Cluster.Changes`.
-/

namespace WarmPool

open Reconcile

/-- The operation with other owners. -/
def Operation.owned (op : Operation) (owners : List OwnerReference) : Operation :=
  { op with metadata := { op.metadata with ownerReferences := some owners } }

/-- Owners without a UID have no reference to it. -/
theorem Metadata.uid_ne_of_mem_withoutOwner {m : Metadata} {uid : String} {r : OwnerReference}
    (h : r ∈ m.withoutOwner uid) : r.uid ≠ uid := by simpa using (List.mem_filter.1 h).2

namespace Cluster

variable {c c' : Cluster} {op old new : Operation} {namespaceName name : String}

/-! ### Clusters in order -/

/-- The version is none that is still to be handed out. -/
def HasIssued (c : Cluster) (version : Option String) : Prop :=
  ∀ n, c.version < n → version ≠ some (natText n)

theorem HasIssued.mono {version : Option String} (h : c.HasIssued version)
    (hle : c.version ≤ c'.version) : c'.HasIssued version :=
  fun n hn => h n (Nat.lt_of_le_of_lt hle hn)

/-- Every operation has a place of its own and a version that has been handed out. -/
structure Orderly (c : Cluster) : Prop where
  placed : ∀ op ∈ c.operations, ∃ namespaceName name, op.metadata.isAt namespaceName name = true
  apart : (c.operations.map fun op => op.metadata.place).Nodup
  issued : ∀ op ∈ c.operations, c.HasIssued op.metadata.resourceVersion

theorem Orderly.eq_of_place (h : c.Orderly) (hold : old ∈ c.operations) (hnew : new ∈ c.operations)
    (hplace : old.metadata.place = new.metadata.place) : old = new :=
  List.inj_on_of_nodup_map h.apart hold hnew hplace

theorem Orderly.eq_of_isAt (h : c.Orderly) (hold : old ∈ c.operations) (hnew : new ∈ c.operations)
    (hatOld : old.metadata.isAt namespaceName name = true)
    (hatNew : new.metadata.isAt namespaceName name = true) : old = new :=
  h.eq_of_place hold hnew ((Metadata.isAt_iff.1 hatOld).trans (Metadata.isAt_iff.1 hatNew).symm)

theorem Orderly.operation?_eq (h : c.Orderly) (hop : op ∈ c.operations)
    (hat : op.metadata.isAt namespaceName name = true) :
    c.operation? namespaceName name = some op := by
  cases hfound : c.operation? namespaceName name with
  | none => exact absurd hat (by simp [operation?_eq_none.1 hfound op hop])
  | some found =>
    obtain ⟨hmem, hfoundAt⟩ := mem_of_operation? hfound
    rw [h.eq_of_isAt hmem hop hfoundAt hat]

/-! ### Changes of operations -/

/-- The version of the operation was handed out between two states. -/
def Stamps (c c' : Cluster) (op : Operation) : Prop :=
  ∃ n, c.version < n ∧ n ≤ c'.version ∧ op.metadata.resourceVersion = some (natText n)

/--
How the operations of a cluster change in one step: not at all, by a write of one of them, by one
more, or by one less.
-/
inductive Changes (write : Operation → Operation → Prop) (make : Operation → Prop)
    (c c' : Cluster) : Prop
  | same (hoperations : c'.operations = c.operations) (hversion : c.version ≤ c'.version)
  | write {namespaceName name : String} {old new : Operation}
      (hstored : c.operation? namespaceName name = some old)
      (hstamp : c.Stamps c' new) (hat : new.metadata.isAt namespaceName name = true)
      (h : write old new)
      (hoperations : c'.operations =
        updateWhere (fun op => op.metadata.isAt namespaceName name) (fun _ => new) c.operations)
  | make {namespaceName name : String} {new : Operation}
      (hfree : c.operation? namespaceName name = none)
      (hstamp : c.Stamps c' new) (hat : new.metadata.isAt namespaceName name = true)
      (h : make new) (hoperations : c'.operations = c.operations ++ [new])
  | remove (namespaceName name : String)
      (hoperations : c'.operations =
        c.operations.filter fun op => !op.metadata.isAt namespaceName name)
      (hversion : c.version ≤ c'.version)

variable {write write' : Operation → Operation → Prop} {make make' : Operation → Prop}

theorem Changes.mono (h : c.Changes write make c')
    (hwrite : ∀ old ∈ c.operations, ∀ new, write old new → write' old new)
    (hmake : ∀ new, make new → make' new) : c.Changes write' make' c' := by
  cases h with
  | same hoperations hversion => exact .same hoperations hversion
  | write hstored hstamp hat h hoperations =>
    exact .write hstored hstamp hat (hwrite _ (mem_of_operation? hstored).1 _ h) hoperations
  | make hfree hstamp hat h hoperations =>
    exact .make hfree hstamp hat (hmake _ h) hoperations
  | remove namespaceName name hoperations hversion =>
    exact .remove namespaceName name hoperations hversion

theorem Changes.version_le (h : c.Changes write make c') : c.version ≤ c'.version := by
  cases h with
  | same _ hversion => exact hversion
  | write _ hstamp _ _ _ =>
    obtain ⟨n, hlt, hle, -⟩ := hstamp
    omega
  | make _ hstamp _ _ _ =>
    obtain ⟨n, hlt, hle, -⟩ := hstamp
    omega
  | remove _ _ _ hversion => exact hversion

/-- Where an operation comes from: it was stored, or is what was written or added. -/
theorem Changes.mem_cases (h : c.Changes write make c') (hop : op ∈ c'.operations) :
    op ∈ c.operations ∨ c.Stamps c' op ∧
      ((∃ old ∈ c.operations, old.metadata.place = op.metadata.place ∧ write old op) ∨
        make op) := by
  cases h with
  | same hoperations _ => exact .inl (hoperations ▸ hop)
  | write hstored hstamp hat h hoperations =>
    obtain ⟨hmem, holdAt⟩ := mem_of_operation? hstored
    rw [hoperations, mem_updateWhere] at hop
    obtain ⟨b, hb, rfl⟩ := hop
    split
    · refine .inr ⟨hstamp, .inl ⟨_, hmem, ?_, h⟩⟩
      exact (Metadata.isAt_iff.1 holdAt).trans (Metadata.isAt_iff.1 hat).symm
    · exact .inl hb
  | make hfree hstamp hat h hoperations =>
    rw [hoperations, List.mem_append, List.mem_singleton] at hop
    rcases hop with hop | rfl
    · exact .inl hop
    · exact .inr ⟨hstamp, .inr h⟩
  | remove _ _ hoperations _ =>
    rw [hoperations] at hop
    exact .inl (List.mem_filter.1 hop).1

/-- At most one operation is new. -/
theorem Changes.mem_or_mem_or_eq (h : c.Changes write make c') {op' : Operation}
    (hop : op ∈ c'.operations) (hop' : op' ∈ c'.operations) :
    op ∈ c.operations ∨ op' ∈ c.operations ∨ op = op' := by
  cases h with
  | same hoperations _ => exact .inl (hoperations ▸ hop)
  | @write namespaceName name _ new _ _ _ _ hoperations =>
    have hcases {a : Operation} (ha : a ∈ c'.operations) : a ∈ c.operations ∨ a = new := by
      rw [hoperations, mem_updateWhere] at ha
      obtain ⟨b, hb, rfl⟩ := ha
      split
      · exact .inr rfl
      · exact .inl hb
    rcases hcases hop with hmem | rfl
    · exact .inl hmem
    · rcases hcases hop' with hmem | rfl
      · exact .inr (.inl hmem)
      · exact .inr (.inr rfl)
  | @make _ _ new _ _ _ _ hoperations =>
    rw [hoperations, List.mem_append, List.mem_singleton] at hop hop'
    rcases hop with hmem | rfl
    · exact .inl hmem
    · rcases hop' with hmem | rfl
      · exact .inr (.inl hmem)
      · exact .inr (.inr rfl)
  | remove _ _ hoperations _ =>
    rw [hoperations] at hop
    exact .inl (List.mem_filter.1 hop).1

/-- A cluster in order stays so. -/
theorem Changes.orderly (h : c.Changes write make c') (hc : c.Orderly) : c'.Orderly := by
  -- A version is either an old one or the one just handed out; neither is still to come.
  have hissued : ∀ op ∈ c'.operations, c'.HasIssued op.metadata.resourceVersion := by
    intro op hop
    rcases h.mem_cases hop with hop | ⟨⟨n, -, hle, hversion⟩, -⟩
    · exact (hc.issued op hop).mono h.version_le
    · intro k hk heq
      rw [hversion, Option.some.injEq] at heq
      have hnk := natText_injective heq
      omega
  cases h with
  | same hoperations _ =>
    exact ⟨hoperations ▸ hc.placed, hoperations ▸ hc.apart, hissued⟩
  | @write namespaceName name old new hstored _ hat _ hoperations =>
    -- What is written stays where it was, so the places are the same as before.
    have hplaces : c'.operations.map (fun op => op.metadata.place) =
        c.operations.map fun op => op.metadata.place := by
      rw [hoperations]
      unfold updateWhere
      rw [List.map_map]
      refine List.map_congr_left fun op _ => ?_
      by_cases hop : op.metadata.isAt namespaceName name = true
      · simp only [Function.comp_apply, hop, ↓reduceIte]
        exact (Metadata.isAt_iff.1 hat).trans (Metadata.isAt_iff.1 hop).symm
      · simp only [Function.comp_apply, hop, Bool.false_eq_true, ↓reduceIte]
    refine ⟨fun op hop => ?_, hplaces ▸ hc.apart, hissued⟩
    rw [hoperations, mem_updateWhere] at hop
    obtain ⟨b, hb, rfl⟩ := hop
    split
    · exact ⟨_, _, hat⟩
    · exact hc.placed b hb
  | @make namespaceName name new hfree _ hat _ hoperations =>
    refine ⟨fun op hop => ?_, ?_, hissued⟩
    · rw [hoperations, List.mem_append, List.mem_singleton] at hop
      rcases hop with hop | rfl
      · exact hc.placed op hop
      · exact ⟨_, _, hat⟩
    · rw [hoperations, List.map_append, List.map_singleton, List.nodup_append]
      refine ⟨hc.apart, List.nodup_singleton _, fun place hplace place' hplace' heq => ?_⟩
      rw [List.mem_singleton] at hplace'
      obtain ⟨op, hop, rfl⟩ := List.mem_map.1 hplace
      have hopAt : op.metadata.isAt namespaceName name = true := by
        rw [Metadata.isAt_iff, heq, hplace']
        exact Metadata.isAt_iff.1 hat
      exact absurd hopAt (by simp [operation?_eq_none.1 hfree op hop])
  | remove namespaceName name hoperations _ =>
    refine ⟨fun op hop => ?_, ?_, hissued⟩
    · rw [hoperations] at hop
      exact hc.placed op (List.mem_filter.1 hop).1
    · rw [hoperations]
      exact hc.apart.sublist (List.filter_sublist.map _)

/-! ### What was seen -/

/--
An operation that was seen: while its place and version are those of a stored operation, it is that
operation.
-/
structure Recalls (c : Cluster) (op : Operation) : Prop where
  placed : ∃ namespaceName name, op.metadata.isAt namespaceName name = true
  issued : c.HasIssued op.metadata.resourceVersion
  same : ∀ stored ∈ c.operations, stored.metadata.place = op.metadata.place →
    stored.metadata.resourceVersion = op.metadata.resourceVersion → stored = op

theorem Orderly.recalls (h : c.Orderly) (hop : op ∈ c.operations) : c.Recalls op :=
  ⟨h.placed op hop, h.issued op hop, fun _ hstored hplace _ => h.eq_of_place hstored hop hplace⟩

/-- What was seen is remembered through every change. -/
theorem Recalls.changes (h : c.Recalls op) (hc : c.Changes write make c') : c'.Recalls op := by
  refine ⟨h.placed, h.issued.mono hc.version_le, fun stored hstored hplace hversion => ?_⟩
  rcases hc.mem_cases hstored with hmem | ⟨⟨n, hlt, -, hstamp⟩, -⟩
  · exact h.same stored hmem hplace hversion
  · -- A new operation has a version that was not handed out when the other was seen.
    exact absurd (hversion.symm.trans hstamp) (h.issued n hlt)

/-- A stored operation with the name and the version of one seen in the namespace is that one. -/
theorem Recalls.eq_of_stored {seen : Operation} (h : c.Recalls seen)
    (hnamespace : seen.metadata.namespaceName = some namespaceName) (hop : op ∈ c.operations)
    (hat : op.metadata.isAt namespaceName seen.name = true)
    (hversion : op.metadata.resourceVersion = seen.metadata.resourceVersion) : op = seen := by
  obtain ⟨namespaceName', name, hplace⟩ := h.placed
  have hname : seen.name = name := Metadata.anyName_of_isAt hplace
  refine h.same op hop ?_ hversion
  rw [Metadata.isAt_iff.1 hat, hname]
  exact Prod.ext hnamespace.symm (Metadata.name_of_isAt hplace).symm

/-! ### What calls and others change -/

/-- What a call writes to a stored operation: other owners and a new version. -/
def Exchanges (namespaceName : String) (call : Call) (old new : Operation) : Prop :=
  ∃ name seen owners version, call = .patchOwners name seen owners ∧
    old.metadata.isAt namespaceName name = true ∧ old.metadata.resourceVersion = some seen ∧
    new = (old.owned owners).stamped version

/-- The operation that a call adds has the owners asked for. -/
def Adds (call : Call) (new : Operation) : Prop :=
  ∃ op, call = .createOperation op ∧ new.metadata.ownerReferences = op.metadata.ownerReferences

/-- The last version handed out, in the next state. -/
theorem stamps_nextVersion (h : c'.version = c.version + 1) (op : Operation) :
    c.Stamps c' (op.stamped c.nextVersion.1) :=
  ⟨c.version + 1, by omega, by omega, rfl⟩

theorem patchOwners_eq (c : Cluster) (namespaceName name seen : String)
    (owners : List OwnerReference) :
    c.patchOwners namespaceName name seen owners =
      match c.operation? namespaceName name with
      | none => (.error (.conflict Kind.operation.name name "gone"), c.nextVersion.2)
      | some op =>
        if op.metadata.resourceVersion = some seen then
          (.ok (), c.nextVersion.2.updateOperation namespaceName name
            fun op => (op.owned owners).stamped c.nextVersion.1)
        else (.error (.conflict Kind.operation.name name "resourceVersion changed"),
          c.nextVersion.2) := rfl

theorem patchOwners_changes (c : Cluster) (namespaceName name seen : String)
    (owners : List OwnerReference) (hc : c.Orderly) :
    c.Changes (Exchanges namespaceName (.patchOwners name seen owners)) make
      (c.patchOwners namespaceName name seen owners).2 := by
  rw [patchOwners_eq]
  cases hstored : c.operation? namespaceName name with
  | none => exact .same rfl (Nat.le_succ _)
  | some op =>
    obtain ⟨hmem, hat⟩ := mem_of_operation? hstored
    by_cases hversion : op.metadata.resourceVersion = some seen
    · simp only [hversion, ↓reduceIte]
      refine .write hstored (stamps_nextVersion rfl (op.owned owners)) hat
        ⟨name, seen, owners, c.nextVersion.1, rfl, hat, hversion, rfl⟩ ?_
      -- The operations written are all at one place, and there is only one there.
      refine List.map_congr_left fun other hother => ?_
      by_cases hotherAt : other.metadata.isAt namespaceName name = true
      · have heq : other = op := hc.eq_of_place hother hmem
          ((Metadata.isAt_iff.1 hotherAt).trans (Metadata.isAt_iff.1 hat).symm)
        rw [if_pos hotherAt, if_pos hotherAt, heq]
      · rw [if_neg hotherAt, if_neg hotherAt]
    · simp only [hversion, ↓reduceIte]
      exact .same rfl (Nat.le_succ _)

/-- The owners of the version that is stored are replaced. -/
theorem patchOwners_stored {version : String} {owners : List OwnerReference}
    (hop : c.operation? namespaceName name = some op)
    (hversion : op.metadata.resourceVersion = some version) :
    (c.patchOwners namespaceName name version owners).1 = .ok () := by
  rw [patchOwners_eq, hop]
  simp only [hversion, ↓reduceIte]

/-- Owners that were written are those of the operation found, under its next version. -/
theorem patchOwners_ok {seen : String} {owners : List OwnerReference}
    (h : (c.patchOwners namespaceName name seen owners).1 = .ok ()) :
    ∃ old, c.operation? namespaceName name = some old ∧
      old.metadata.resourceVersion = some seen ∧
      (c.patchOwners namespaceName name seen owners).2.operation? namespaceName name =
        some ((old.owned owners).stamped c.nextVersion.1) := by
  rw [patchOwners_eq] at h ⊢
  cases hstored : c.operation? namespaceName name with
  | none =>
    rw [hstored] at h
    cases h
  | some old =>
    by_cases hversion : old.metadata.resourceVersion = some seen
    · simp only [hversion, ↓reduceIte]
      refine ⟨old, rfl, hversion, ?_⟩
      have hafter : (c.nextVersion.2.updateOperation namespaceName name
          fun op => (op.owned owners).stamped c.nextVersion.1).operation? namespaceName name =
          (c.operation? namespaceName name).map
            fun op => (op.owned owners).stamped c.nextVersion.1 :=
        operation?_updateOperation fun _ _ hat => hat
      rw [hafter, hstored]
      rfl
    · rw [hstored] at h
      simp only [hversion, ↓reduceIte] at h
      cases h

/-- What a call changes, if an operation to be made is of the namespace and has room in it. -/
theorem serve_changes {view : Cluster} {call : Call} (hc : c.Orderly)
    (hroom : c.HasRoom namespaceName call)
    (hplace : ∀ op, call = .createOperation op → op.metadata.namespaceName = some namespaceName) :
    c.Changes (Exchanges namespaceName call) (Adds call) (serve namespaceName view c call).2 := by
  cases call with
  | patchStatus name status =>
    show c.Changes _ _ (c.patchStatus namespaceName name status).2
    unfold patchStatus
    split
    · exact .same rfl le_rfl
    · exact .same rfl le_rfl
  | addFinalizer name finalizer =>
    show c.Changes _ _ (c.addFinalizer namespaceName name finalizer).2
    unfold addFinalizer
    split
    · exact .same rfl le_rfl
    · exact .same rfl le_rfl
  | removeFinalizer name finalizer =>
    show c.Changes _ _ (c.removeFinalizer namespaceName name finalizer)
    unfold removeFinalizer
    split
    · exact .same rfl le_rfl
    · split
      · exact .same rfl le_rfl
      · split
        · exact .same rfl le_rfl
        · exact .same rfl le_rfl
  | getCache name => exact .same rfl le_rfl
  | createCache cache =>
    show c.Changes _ _ (c.createCache namespaceName cache).2
    unfold createCache
    split
    · exact .same rfl le_rfl
    · exact .same rfl (Nat.le_succ _)
  | getOperation name => exact .same rfl le_rfl
  | listOperations key => exact .same rfl le_rfl
  | createOperation op =>
    have hat : (c.createOperation op).1.metadata.isAt namespaceName (c.drawnName op.name) =
        true := by
      rw [Metadata.isAt_iff]
      exact Prod.ext (hplace op rfl) rfl
    have hstamp : c.Stamps (c.createOperation op).2 (c.createOperation op).1 :=
      ⟨c.version + 1, Nat.lt_succ_self _, le_rfl, rfl⟩
    exact .make (hroom op rfl) hstamp hat ⟨op, rfl, rfl⟩ rfl
  | patchOwners name seen owners =>
    exact patchOwners_changes c namespaceName name seen owners hc

theorem others_changes {license : License} (h : Others license c c') :
    c.Changes (fun old new => ∃ op version, license.write old op ∧ new = op.stamped version)
      (fun new => ∃ op version, license.make op ∧ new = op.stamped version) c' := by
  cases h with
  | requirements _ => exact .same rfl le_rfl
  | caches _ => exact .same rfl le_rfl
  | @write namespaceName name op new hstored hplace h =>
    exact .write hstored (stamps_nextVersion rfl new) hplace ⟨_, _, h, rfl⟩ rfl
  | @make namespaceName name new hfree hplace h =>
    exact .make hfree (stamps_nextVersion rfl new) hplace ⟨_, _, h, rfl⟩ rfl
  | remove namespaceName name => exact .remove namespaceName name rfl le_rfl
  | version n => exact .same rfl (Nat.le_add_right _ _)

end Cluster

/-! ### Worlds -/

/--
What holds of every world: the cluster is in order, the operations seen are recalled, those that a
reconcile listed are of its namespace and have the label asked for, and every reconcile keeps to its
moves.
-/
structure World.Consistent (w : World) : Prop where
  orderly : w.cluster.Orderly
  former : ∀ c ∈ w.former, ∀ op ∈ c.operations, w.cluster.Recalls op
  seen : ∀ t ∈ w.tasks, ∀ key operations,
    (⟨.listOperations key, .ok operations⟩ : Answered) ∈ t.past → ∀ op ∈ operations,
      w.cluster.Recalls op ∧ op.metadata.namespaceName = some t.namespaceName ∧
        op.hasLabel keyLabel key = true
  obeys : ∀ t ∈ w.tasks, t.rest.Obeys (Move t.occasion t.requirement) t.past

/-- The namespace of a reconcile is that of the place of its requirement. -/
theorem Task.namespaceName_eq {t : Task} {namespaceName name : String}
    (h : t.requirement.metadata.isAt namespaceName name = true) :
    t.namespaceName = namespaceName := Requirement.namespaceName_of_isAt h

/-- What a reconcile makes of a stored operation by its next call. -/
inductive Task.Replaces (t : Task) (old new : Operation) : Prop
  /-- It claims an operation that its cache's pool has for it. -/
  | claim (h : AdvancesFrom t.requirement .cacheChecking) {uid version : String} {cache : Cache}
      {operations : List Operation} (huid : t.requirement.metadata.uid = some uid)
      (hpast : t.past = [⟨.listOperations (soughtKey t.requirement t.requirement.known),
          .ok operations⟩,
        ⟨.getCache (Cache.nameForKey (soughtKey t.requirement t.requirement.known)),
          .ok (some cache)⟩])
      (hnone : Pool.claimedBy? uid operations = none) (hmem : old ∈ operations)
      (hacquirable : Pool.isAcquirable cache old = true)
      (hnew : new =
        (old.owned (old.metadata.withOwner (holderReference t.requirement uid false))).stamped
          version)
  /-- It hands an operation back. -/
  | release (h : Releases t.requirement) {uid version : String}
      (huid : t.requirement.metadata.uid = some uid)
      (hnew : new = (old.owned (old.metadata.withoutOwner uid)).stamped version)

/-- The operation that a reconcile makes is controlled by its requirement alone. -/
def Task.Makes (t : Task) (new : Operation) : Prop :=
  ∃ uid, t.requirement.metadata.uid = some uid ∧
    new.metadata.owners = [holderReference t.requirement uid true]

namespace World

variable {w : World} {t : Task} {n : String} {c : Call}
  {next : Except Error c.Reply → Plan Action}

/-- The next call of a reconcile is one of its moves. -/
theorem Consistent.move (h : w.Consistent) (ht : t ∈ w.tasks) (hrest : t.rest = .call n c next) :
    Move t.occasion t.requirement t.past c := by
  have hobeys := h.obeys t ht
  rw [hrest] at hobeys
  exact hobeys.1

/-- A write of owners that takes effect lands on the operation that was read. -/
theorem Consistent.replaces (h : w.Consistent) (ht : t ∈ w.tasks)
    (hrest : t.rest = .call t.namespaceName c next) {old new : Operation}
    (hold : old ∈ w.cluster.operations)
    (hexchange : Cluster.Exchanges t.namespaceName c old new) : t.Replaces old new := by
  obtain ⟨name, seen, owners, version, rfl, hat, hversion, rfl⟩ := hexchange
  -- The move names an operation that was listed; the version makes it the stored one.
  obtain ⟨key, uid, operations, op, hlist, hop, rfl, hseen, huid, hkind⟩ :=
    (h.move ht hrest).patchOwners_cases
  obtain ⟨hrecalls, hnamespace, -⟩ := h.seen t ht key operations hlist op hop
  have heq : old = op :=
    hrecalls.eq_of_stored hnamespace hold hat (hversion.trans hseen.symm)
  subst heq
  rcases hkind with ⟨cache, hadvances, rfl, hpast, hnone, hselect, rfl⟩ | ⟨hreleases, rfl⟩
  · exact .claim hadvances huid hpast hnone hop (Pool.isAcquirable_of_select? hselect) rfl
  · exact .release hreleases huid rfl

/--
A write of owners that takes effect replaces the operation that is stored at that instant by what
its reconcile makes of that very operation.
-/
theorem Consistent.replaces_stored (h : w.Consistent) (ht : t ∈ w.tasks) {name seen : String}
    {owners : List OwnerReference} {next : Except Error Unit → Plan Action}
    (hrest : t.rest = .call t.namespaceName (.patchOwners name seen owners) next)
    (heffect : (w.cluster.patchOwners t.namespaceName name seen owners).1 = .ok ()) :
    ∃ old new, w.cluster.operation? t.namespaceName name = some old ∧
      (w.cluster.patchOwners t.namespaceName name seen owners).2.operation? t.namespaceName name =
        some new ∧
      new = (old.owned owners).stamped w.cluster.nextVersion.1 ∧ t.Replaces old new := by
  obtain ⟨old, hstored, hversion, hwritten⟩ := Cluster.patchOwners_ok heffect
  obtain ⟨hmem, hat⟩ := Cluster.mem_of_operation? hstored
  exact ⟨old, _, hstored, hwritten, rfl,
    h.replaces ht hrest hmem ⟨name, seen, owners, _, rfl, hat, hversion, rfl⟩⟩

/-- An operation that a reconcile makes is of its namespace, and its requirement controls it. -/
theorem Consistent.createOperation (h : w.Consistent) (ht : t ∈ w.tasks)
    (hrest : t.rest = .call t.namespaceName c next) {op : Operation}
    (hc : c = .createOperation op) :
    op.metadata.namespaceName = some t.namespaceName ∧
      ∃ uid, t.requirement.metadata.uid = some uid ∧
        op.metadata.ownerReferences = some [holderReference t.requirement uid true] := by
  subst hc
  obtain ⟨hplace, uid, huid, rfl⟩ := (h.move ht hrest).createOperation_cases
  refine ⟨?_, uid, huid, rfl⟩
  obtain ⟨namespaceName, hnamespace⟩ := Option.isSome_iff_exists.1 hplace
  exact hnamespace.trans (congrArg some (Requirement.namespaceName_of_some hnamespace).symm)

/-- What the next call of a reconcile does to the operations. -/
theorem Consistent.call_changes (h : w.Consistent) (ht : t ∈ w.tasks)
    (hrest : t.rest = .call t.namespaceName c next) {fate : Fate} (view : Cluster)
    (hroom : (∀ e, fate ≠ .lost e) → w.cluster.HasRoom t.namespaceName c) :
    w.cluster.Changes
      (fun old new => Cluster.Exchanges t.namespaceName c old new ∧ t.Replaces old new) t.Makes
      (w.cluster.deliver t.namespaceName view c fate).2 := by
  rcases w.cluster.deliver_cases t.namespaceName view c fate with hsame | ⟨hfate, hserved⟩
  · exact .same (congrArg Cluster.operations hsame) (congrArg Cluster.version hsame).ge
  · rw [hserved]
    refine (Cluster.serve_changes h.orderly (hroom hfate) fun op hop =>
      (h.createOperation ht hrest hop).1).mono (fun old hold new hexchange => ?_)
        fun new hadds => ?_
    · exact ⟨hexchange, h.replaces ht hrest hold hexchange⟩
    · obtain ⟨op, hop, howners⟩ := hadds
      obtain ⟨-, uid, huid, hreferences⟩ := h.createOperation ht hrest hop
      refine ⟨uid, huid, ?_⟩
      unfold Metadata.owners
      rw [howners, hreferences]
      rfl

/-- The operations that a reconcile is told of when it lists are those of the state that is read. -/
theorem listOperations_of_deliver {c : Cluster} {namespaceName key : String} {view : Cluster}
    {fate : Fate} {operations : List Operation}
    (h : (c.deliver namespaceName view (.listOperations key) fate).1 = .ok operations) :
    operations = view.listOperations namespaceName key := by
  cases fate with
  | served =>
    cases h
    rfl
  | lost e => cases h
  | unheard e => cases h

/-- A reconcile besides the one that makes a step. -/
theorem mem_tasks_of_ne {before after : List Task} {t t' new : Task}
    (htasks : w.tasks = before ++ t :: after) (h : t' ∈ before ++ new :: after) :
    t' = new ∨ t' ∈ w.tasks := by
  rw [htasks]
  rcases List.mem_append.1 h with h | h
  · exact .inr (List.mem_append_left _ h)
  · rcases List.mem_cons.1 h with h | h
    · exact .inl h
    · exact .inr (List.mem_append_right _ (List.mem_cons_of_mem _ h))

theorem mem_tasks {before after : List Task} (htasks : w.tasks = before ++ t :: after) :
    t ∈ w.tasks := by
  rw [htasks]
  simp

/-- The reconciles besides one. -/
theorem sublist_tasks {before after : List Task} (htasks : w.tasks = before ++ t :: after) :
    (before ++ after).Sublist w.tasks := by
  rw [htasks]
  exact (List.Sublist.refl before).append (List.sublist_cons_self t after)

/-- A reconcile that goes on without a call changes nothing else. -/
theorem Consistent.quiet (h : w.Consistent) {before after : List Task} {rest : Plan Action}
    (htasks : w.tasks = before ++ t :: after) (hwithin : rest.Within t.namespaceName)
    (hobeys : t.rest.Obeys (Move t.occasion t.requirement) t.past →
      rest.Obeys (Move t.occasion t.requirement) t.past) :
    Consistent { w with tasks := before ++ t.resume rest hwithin :: after } := by
  refine ⟨h.orderly, h.former, fun t' ht' => ?_, fun t' ht' => ?_⟩
  · rcases mem_tasks_of_ne htasks ht' with rfl | ht'
    · exact h.seen t (mem_tasks htasks)
    · exact h.seen t' ht'
  · rcases mem_tasks_of_ne htasks ht' with rfl | ht'
    · exact hobeys (h.obeys t (mem_tasks htasks))
    · exact h.obeys t' ht'

/-- What was seen is remembered in the next state. -/
theorem Consistent.former_of_changes (h : w.Consistent)
    {write : Operation → Operation → Prop} {make : Operation → Prop} {c' : Cluster}
    (hchanges : w.cluster.Changes write make c') :
    ∀ c ∈ w.cluster :: w.former, ∀ op ∈ c.operations, c'.Recalls op := by
  intro c hc op hop
  rcases List.mem_cons.1 hc with rfl | hc
  · exact (h.orderly.recalls hop).changes hchanges
  · exact (h.former c hc op hop).changes hchanges

end World

/-! ### Runs -/

/-- Reads are served from the present state or a former one. -/
def Surroundings.Faithful (env : Surroundings) : Prop :=
  ∀ w view, env.views w view → view = w.cluster ∨ view ∈ w.former

/-- Every step keeps a world consistent. -/
theorem World.Consistent.step {env : Surroundings} {w w' : World} (h : w.Consistent)
    (henv : env.Faithful) (hstep : Step env w w') : w'.Consistent := by
  cases hstep with
  | @start settings occasion r _ =>
    refine ⟨h.orderly, h.former, fun t ht => ?_, fun t ht => ?_⟩
    · rcases List.mem_cons.1 ht with rfl | ht
      · exact fun _ _ hlist => nomatch hlist
      · exact h.seen t ht
    · rcases List.mem_cons.1 ht with rfl | ht
      · exact plan_obeys settings occasion r
      · exact h.obeys t ht
  | event htasks hrest => exact h.quiet htasks _ fun hobeys => by rwa [hrest] at hobeys
  | measure htasks hrest => exact h.quiet htasks _ fun hobeys => by rwa [hrest] at hobeys
  | @call before after t n c next view fate htasks hrest hview hroom =>
    obtain rfl := Task.namespaceName_of_call hrest
    have ht := World.mem_tasks htasks
    have hchanges := h.call_changes ht hrest view hroom
    have hformer := h.former_of_changes hchanges
    refine ⟨hchanges.orderly h.orderly, hformer, fun t' ht' => ?_, fun t' ht' => ?_⟩
    · intro key operations hlist op hop
      rcases World.mem_tasks_of_ne htasks ht' with rfl | ht'
      · rcases List.mem_cons.1 hlist with hlist | hlist
        · -- The list has just been read from a state that is remembered.
          rw [Answered.mk.injEq] at hlist
          obtain ⟨rfl, hreply⟩ := hlist
          have hoperations := World.listOperations_of_deliver (eq_of_heq hreply).symm
          rw [hoperations] at hop
          obtain ⟨hmem, hnamespace⟩ := List.mem_filter.1 hop
          rw [Bool.and_eq_true, decide_eq_true_iff] at hnamespace
          refine ⟨?_, hnamespace⟩
          rcases henv _ _ hview with rfl | hformerView
          · exact hformer _ List.mem_cons_self op hmem
          · exact hformer _ (List.mem_cons_of_mem _ hformerView) op hmem
        · obtain ⟨hrecalls, hseen⟩ := h.seen t ht key operations hlist op hop
          exact ⟨hrecalls.changes hchanges, hseen⟩
      · obtain ⟨hrecalls, hseen⟩ := h.seen t' ht' key operations hlist op hop
        exact ⟨hrecalls.changes hchanges, hseen⟩
    · rcases World.mem_tasks_of_ne htasks ht' with rfl | ht'
      · have hobeys := h.obeys t ht
        rw [hrest] at hobeys
        exact hobeys.2 _
      · exact h.obeys t' ht'
  | @stop before after t htasks =>
    have hmem := (World.sublist_tasks htasks).subset
    exact ⟨h.orderly, h.former, fun t' ht' => h.seen t' (hmem ht'),
      fun t' ht' => h.obeys t' (hmem ht')⟩
  | others hothers =>
    have hchanges := Cluster.others_changes hothers
    refine ⟨hchanges.orderly h.orderly, h.former_of_changes hchanges, ?_, h.obeys⟩
    intro t ht key operations hlist op hop
    obtain ⟨hrecalls, hseen⟩ := h.seen t ht key operations hlist op hop
    exact ⟨hrecalls.changes hchanges, hseen⟩

/-- A cluster in order before any reconcile. -/
theorem World.consistent_of_orderly {c : Cluster} (h : c.Orderly) :
    World.Consistent { cluster := c } :=
  ⟨h, fun _ hc => (nomatch hc), fun _ ht => (nomatch ht), fun _ ht => (nomatch ht)⟩

/-- Every world of a run that starts from a cluster in order is consistent. -/
theorem Reachable.consistent {env : Surroundings} {c : Cluster} {w : World}
    (h : Reachable env { cluster := c } w) (henv : env.Faithful) (hc : c.Orderly) :
    w.Consistent :=
  h.induction_of (World.consistent_of_orderly hc) fun _ _ hw hstep => hw.step henv hstep

end WarmPool
