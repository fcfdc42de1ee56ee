import WarmPool.Proofs.Ownership

/-!
# One operation of one's own

A requirement without caching looks for an operation that it controls before it makes one. The
operation that it made bears the key and the reference by which it is looked for, so that the next
reconcile finds it even if the status never told of it (`single_minting`): what is owned is found
(`Minter.Finds`), and an operation is made only after a list that shows none (`MakesUnfound`), which
is so until the operation is there since no two reconciles of the requirement overlap.
-/

namespace WarmPool

open Reconcile

/-- A requirement that makes its operations itself: where it is, who it is and what it asks for. -/
structure Minter where
  namespaceName : String
  uid : String
  template : Template

namespace Minter

/-- The requirement with this UID is in its namespace and asks for its template. -/
def Fits (m : Minter) (r : Requirement) : Prop :=
  r.metadata.uid = some m.uid →
    r.metadata.namespaceName = some m.namespaceName ∧ r.spec.template = m.template

/-- Whether a reconcile is of the requirement. -/
def runs (m : Minter) (t : Task) : Bool := t.requirement.metadata.uid = some m.uid

/-- Whether an operation of the namespace has the requirement as a controlling owner. -/
def owns (m : Minter) (op : Operation) : Bool :=
  op.metadata.namespaceName = some m.namespaceName &&
    op.metadata.owners.any fun owner => owner.isController && owner.uid = m.uid

/-- The operation is found by those who look for one that the requirement controls. -/
structure Finds (m : Minter) (op : Operation) : Prop where
  controlled : isControlledBy m.uid op = true
  labelled : op.hasLabel keyLabel m.template.key = true

end Minter

/--
A reconcile of the requirement starts from any snapshot that shows its namespace and its template,
once no other one is under way; other requirements are reconciled at any time from any snapshot.
Others delete operations and write what they want to them but their labels, and never make the
requirement their controlling owner.
-/
def minting (m : Minter) : Surroundings where
  starts w _ r := m.Fits r ∧ (r.metadata.uid = some m.uid → ∀ t ∈ w.tasks, m.runs t = false)
  views w view := view = w.cluster
  license :=
    { requirements := fun _ _ => True
      write := fun old new => new.metadata.labels = old.metadata.labels ∧
        (m.owns new = true → m.owns old = true ∧ isControlledBy m.uid new = true)
      make := fun new => m.owns new = false }

theorem minting_faithful (m : Minter) : (minting m).Faithful := fun _ _ h => .inl h

/-! ### Labels -/

/-- The value of another key is not changed by an entry. -/
theorem StringMap.get?_insert_of_ne {m : StringMap} {key key' : String} (h : key ≠ key')
    (value : String) : (m.insert key value).get? key' = m.get? key' := by
  have hfind (entries : List (String × String)) :
      (insertEntry key value entries).find? (fun e => e.1 = key') =
        entries.find? fun e => e.1 = key' := by
    induction entries with
    | nil => simp [insertEntry, h]
    | cons first rest ih =>
      obtain ⟨k, v⟩ := first
      rw [insertEntry]
      split
      · rw [List.find?_cons, List.find?_cons, ih]
      · split
        · rename_i hk
          rw [List.find?_cons_of_neg (by simpa using h),
            List.find?_cons_of_neg (by simpa [hk] using h)]
        · rw [List.find?_cons_of_neg (by simpa using h)]
  exact congrArg (Option.map Prod.snd) (hfind m.entries)

/-- An operation that is made carries its key. -/
theorem Reconcile.get?_newLabels (r : Requirement) (key : String) :
    (newLabels r key).get? keyLabel = some key := by
  have hkey : (StringMap.ofList [(keyLabel, key)]).get? keyLabel = some key := by
    simp [StringMap.ofList, StringMap.get?, StringMap.insert, StringMap.insertEntry,
      StringMap.empty]
  unfold newLabels
  split
  · rw [StringMap.get?_insert_of_ne (by decide), hkey]
  · exact hkey

namespace Reconcile

variable {settings : Settings} {occasion : Occasion} {r : Requirement} {past : List Answered}

/-! ### Made only if none is found -/

/-- An operation is made right after a list of those with its key, none of them one's own. -/
def MakesUnfound (r : Requirement) (past : List Answered) (call : Call) : Prop :=
  ∀ op, call = .createOperation op → ∃ uid operations, r.metadata.uid = some uid ∧
    past = [⟨.listOperations r.spec.template.key, .ok operations⟩] ∧
    operations.find? (isControlledBy uid) = none

theorem Move.createOperation_past {op : Operation}
    (h : Move occasion r past (.createOperation op)) :
    AdvancesFrom r .operating ∧
      ∃ operations, past = [⟨.listOperations r.spec.template.key, .ok operations⟩] := by
  cases h with
  | createOperation h _ _ operations => exact ⟨h, operations, rfl⟩

theorem commitThen_makesUnfound (s : RequirementStatus) (after : Duration) :
    (commitThen r s after).Obeys (MakesUnfound r) past := by
  have hcommit : (commit r s).Meets (MakesUnfound r) (fun _ _ => True) past := by
    unfold commit
    split
    · exact trivial
    · exact Plan.Meets.ask_bind (fun _ hcall => nomatch hcall) fun _ => trivial
  exact hcommit.bind fun _ _ _ => trivial

theorem ensureOwned_makesUnfound :
    (ensureOwned settings r r.known occasion).Obeys (MakesUnfound r) [] := by
  have hown (uid : String) (huid : r.metadata.uid = some uid) :
      (ownOperation r r.spec.template.key uid occasion.suffixText).Meets (MakesUnfound r)
        (fun _ _ => True) [] := by
    unfold ownOperation
    refine Plan.Meets.ask_bind (fun _ hcall => nomatch hcall) fun operations => ?_
    cases hfound : operations.find? (isControlledBy uid) with
    | some op => exact trivial
    | none =>
      refine Plan.Meets.ask_bind (fun _ _ => ⟨uid, operations, huid, rfl, hfound⟩) fun _ => ?_
      exact trivial
  unfold ensureOwned
  refine Plan.Meets.orFail_bind fun uid huid => ?_
  exact (hown uid huid).bind fun _ _ _ => commitThen_makesUnfound _ _

theorem follow_makesUnfound {operation : String}
    (h : AdvancesFrom r .operating ∨ AdvancesFrom r .ready) :
    (follow settings r r.known operation occasion.now).Obeys (MakesUnfound r) [] := by
  have hmoves := @follow_obeys settings occasion r operation h
  unfold follow uidOf at hmoves ⊢
  cases huid : r.metadata.uid with
  | none => exact trivial
  | some uid =>
    rw [huid] at hmoves
    -- What comes after a look at the bound operation does not come right after a list.
    refine ⟨fun _ hcall => (nomatch hcall), fun found => ?_⟩
    refine Plan.Obeys.mono (hmoves.2 found) fun past' call hpast hmove => ?_
    rintro op rfl
    obtain ⟨-, operations, rfl⟩ := hmove.createOperation_past
    exact absurd (hpast.eq_of_length rfl) (by simp)

/-- An operation is never made otherwise, whatever a reconcile is answered. -/
theorem plan_makesUnfound (settings : Settings) (occasion : Occasion) (r : Requirement) :
    (plan settings occasion r).Obeys (MakesUnfound r) [] := by
  by_cases hfrom : AdvancesFrom r .operating
  · cases hplace : r.metadata.namespaceName with
    | none =>
      unfold plan
      rw [hplace]
      exact trivial
    | some namespaceName =>
      rw [plan_of_advancesFrom hfrom (by rw [hplace]; rfl)]
      unfold advance
      rw [hfrom.2.2]
      cases r.known.operationName with
      | some operation => exact follow_makesUnfound (.inl hfrom)
      | none =>
        show Plan.Obeys _ _ (ite _ _ _)
        split
        · exact commitThen_makesUnfound _ _
        · exact ensureOwned_makesUnfound
  · refine (plan_obeys settings occasion r).mono fun past' call _ hmove => ?_
    rintro op rfl
    exact absurd hmove.createOperation_past.1 hfrom

end Reconcile

/-- It is the first controlling owner that counts. -/
theorem Reconcile.isControlledBy_iff {uid : String} {op : Operation} :
    isControlledBy uid op = true ↔
      ∃ owner, op.metadata.controllerOwner? = some owner ∧ owner.uid = uid := by
  unfold isControlledBy
  cases op.metadata.controllerOwner? with
  | none => simp
  | some owner => simp

namespace Minter

variable {m : Minter} {c c' : Cluster} {op old new : Operation} {t t' : Task} {w w' : World}

/-! ### Owned and found -/

theorem owns_iff : m.owns op = true ↔ op.metadata.namespaceName = some m.namespaceName ∧
    ∃ owner ∈ op.metadata.owners, owner.isController = true ∧ owner.uid = m.uid := by
  simp [owns]

/-- An operation that is owned stays found through a write that leaves it owned. -/
def Spares (m : Minter) (old new : Operation) : Prop :=
  m.owns new = true → m.owns old = true ∧ (m.Finds old → m.Finds new)

/-- Owners without a UID, and one more that does not control, keep what others own. -/
theorem spares_of_owners {r : OwnerReference} {uid : String} (hr : r.isController = false)
    (hnamespace : new.metadata.namespaceName = old.metadata.namespaceName)
    (hlabels : new.metadata.labels = old.metadata.labels)
    (howners : new.metadata.owners = old.metadata.withoutOwner uid ∨
      new.metadata.owners = old.metadata.withoutOwner uid ++ [r]) : m.Spares old new := by
  intro howns
  obtain ⟨hplace, owner, howner, hcontrols, huid⟩ := owns_iff.1 howns
  have hkept : owner ∈ old.metadata.withoutOwner uid := by
    rcases howners with howners | howners
    · exact howners ▸ howner
    · rw [howners, List.mem_append, List.mem_singleton] at howner
      rcases howner with howner | rfl
      · exact howner
      · rw [hr] at hcontrols
        cases hcontrols
  have hne : m.uid ≠ uid := huid ▸ Metadata.uid_ne_of_mem_withoutOwner hkept
  refine ⟨owns_iff.2 ⟨hnamespace ▸ hplace, owner, (List.mem_filter.1 hkept).1, hcontrols, huid⟩,
    fun hfinds => ?_⟩
  -- The first controlling owner is the requirement, which is not the owner left out.
  obtain ⟨controller, hfirst, hcontroller⟩ := isControlledBy_iff.1 hfinds.controlled
  have hsame : new.metadata.controllerOwner? = old.metadata.controllerOwner? := by
    refine Metadata.controllerOwner?_eq hr howners fun other hother => ?_
    rw [Option.some.inj (hother.symm.trans hfirst), hcontroller]
    exact hne
  refine ⟨isControlledBy_iff.2 ⟨controller, hsame.trans hfirst, hcontroller⟩, ?_⟩
  have hlabelled := hfinds.labelled
  unfold Operation.hasLabel at hlabelled ⊢
  rwa [hlabels]

/-- A reconcile takes control of nothing by a write of owners. -/
theorem spares_of_replaces (h : t.Replaces old new) : m.Spares old new := by
  cases h with
  | claim _ _ _ _ _ _ hnew =>
    subst hnew
    exact spares_of_owners (r := holderReference t.requirement _ false) rfl rfl rfl (.inr rfl)
  | release _ _ hnew =>
    subst hnew
    exact spares_of_owners (r := holderReference t.requirement "" false) rfl rfl rfl (.inl rfl)

/-- The operation that another requirement makes is not owned. -/
theorem owns_of_makes (h : t.Makes new) (ht : m.runs t = false) : m.owns new = false := by
  rw [Bool.eq_false_iff]
  intro howns
  obtain ⟨uid, huid, howners⟩ := h
  obtain ⟨-, owner, howner, -, hsame⟩ := owns_iff.1 howns
  rw [howners, List.mem_singleton] at howner
  subst howner
  have hruns : m.runs t = true := decide_eq_true (huid.trans (congrArg some hsame))
  rw [ht] at hruns
  cases hruns

/-! ### What is stored -/

/-- At most one operation is owned, and it is found. -/
structure Minted (m : Minter) (c : Cluster) : Prop where
  once : c.operations.countP m.owns ≤ 1
  found : ∀ op ∈ c.operations, m.owns op = true → m.Finds op

/-- No operation is owned. -/
def Unminted (m : Minter) (c : Cluster) : Prop := ∀ op ∈ c.operations, m.owns op = false

theorem Unminted.minted (h : m.Unminted c) : m.Minted c := by
  refine ⟨?_, fun op hop howns => ?_⟩
  · rw [List.countP_eq_zero.2 fun op hop => by simp [h op hop]]
    exact Nat.zero_le 1
  · rw [h op hop] at howns
    cases howns

section Changes

variable {write : Operation → Operation → Prop} {make : Operation → Prop}

theorem Unminted.changes (h : m.Unminted c) (hchanges : c.Changes write make c')
    (hwrite : ∀ old new, write old new → m.Spares old new)
    (hmake : ∀ new, make new → m.owns new = false) : m.Unminted c' := by
  intro op hop
  rcases hchanges.mem_cases hop with hop | ⟨-, ⟨old, hold, -, hw⟩ | hm⟩
  · exact h op hop
  · rw [Bool.eq_false_iff]
    intro howns
    have hold' := (hwrite old op hw howns).1
    rw [h old hold] at hold'
    cases hold'
  · exact hmake op hm

/-- A change that spares what is owned and adds nothing to it leaves one operation at most. -/
theorem Minted.changes (h : m.Minted c) (hc : c.Orderly) (hchanges : c.Changes write make c')
    (hwrite : ∀ old new, write old new → m.Spares old new)
    (hmake : ∀ new, make new → m.owns new = false) : m.Minted c' := by
  refine ⟨?_, fun op hop howns => ?_⟩
  · refine Nat.le_trans ?_ h.once
    cases hchanges with
    | same hoperations _ => rw [hoperations]
    | @write namespaceName name old new hstored _ _ hw hoperations =>
      obtain ⟨hmem, hat⟩ := Cluster.mem_of_operation? hstored
      rw [hoperations]
      unfold updateWhere
      rw [List.countP_map]
      refine List.countP_mono_left fun op hop howns => ?_
      by_cases hopAt : op.metadata.isAt namespaceName name = true
      · rw [Function.comp_apply, if_pos hopAt] at howns
        rw [hc.eq_of_isAt hop hmem hopAt hat]
        exact (hwrite old new hw howns).1
      · rwa [Function.comp_apply, if_neg hopAt] at howns
    | @make _ _ new _ _ _ hm hoperations =>
      rw [hoperations, List.countP_append]
      simp [hmake new hm]
    | remove _ _ hoperations _ =>
      rw [hoperations]
      exact List.filter_sublist.countP_le
  · rcases hchanges.mem_cases hop with hop | ⟨-, ⟨old, hold, -, hw⟩ | hm⟩
    · exact h.found op hop howns
    · obtain ⟨hold', hkeeps⟩ := hwrite old op hw howns
      exact hkeeps (h.found old hold hold')
    · rw [hmake op hm] at howns
      cases howns

end Changes

/-- One operation that is found may be added where none is owned. -/
theorem Unminted.minted_append (h : m.Unminted c) (hoperations : c'.operations =
    c.operations ++ [new]) (hfinds : m.Finds new) : m.Minted c' := by
  refine ⟨?_, fun op hop howns => ?_⟩
  · rw [hoperations, List.countP_append, List.countP_eq_zero.2 fun op hop => by simp [h op hop],
      Nat.zero_add]
    exact List.countP_le_length
  · rw [hoperations, List.mem_append, List.mem_singleton] at hop
    rcases hop with hop | rfl
    · rw [h op hop] at howns
      cases howns
    · exact hfinds

/-- A list without an operation that the requirement controls means that none is owned. -/
theorem Minted.unminted_of_list (h : m.Minted c)
    (hnone : (c.listOperations m.namespaceName m.template.key).find? (isControlledBy m.uid) =
      none) : m.Unminted c := by
  intro op hop
  rw [Bool.eq_false_iff]
  intro howns
  obtain ⟨hcontrolled, hlabelled⟩ := h.found op hop howns
  have hlisted : op ∈ c.listOperations m.namespaceName m.template.key :=
    List.mem_filter.2 ⟨hop, by simp [(owns_iff.1 howns).1, hlabelled]⟩
  exact List.find?_eq_none.1 hnone op hlisted hcontrolled

/-- The operation made for a requirement that fits is found. -/
theorem finds_newOperation {r : Requirement} (hfits : r.spec.template = m.template)
    (suffix : String) (c : Cluster) :
    m.Finds (c.createOperation (newOperation r r.spec.template.key m.uid suffix)).1 := by
  refine ⟨isControlledBy_iff.2 ⟨holderReference r m.uid true, rfl, rfl⟩, ?_⟩
  rw [← hfits]
  unfold Operation.hasLabel
  rw [decide_eq_true_iff]
  exact get?_newLabels r _

/-! ### Runs -/

/-- What every world keeps: nothing is owned while a reconcile is about to make an operation. -/
structure Minting (m : Minter) (w : World) : Prop where
  consistent : w.Consistent
  minted : m.Minted w.cluster
  fits : ∀ t ∈ w.tasks, m.Fits t.requirement
  alone : w.tasks.countP m.runs ≤ 1
  obeys : ∀ t ∈ w.tasks, t.rest.Obeys (MakesUnfound t.requirement) t.past
  unminted : ∀ t ∈ w.tasks, m.runs t = true → ∀ operations,
    t.past = [⟨.listOperations m.template.key, .ok operations⟩] →
    operations.find? (isControlledBy m.uid) = none → m.Unminted w.cluster

theorem Minting.of_unminted (hc : c.Orderly) (h : m.Unminted c) : m.Minting { cluster := c } :=
  ⟨World.consistent_of_orderly hc, h.minted, fun _ ht => (nomatch ht), Nat.zero_le 1,
    fun _ ht => (nomatch ht), fun _ ht => (nomatch ht)⟩

theorem uid_of_runs (h : m.runs t = true) : t.requirement.metadata.uid = some m.uid :=
  of_decide_eq_true h

/-- A reconcile that fits runs in the namespace. -/
theorem namespaceName_of_runs (hfits : m.Fits t.requirement) (h : m.runs t = true) :
    t.namespaceName = m.namespaceName :=
  Requirement.namespaceName_of_some (hfits (uid_of_runs h)).1

/-- Beside a reconcile of the requirement there is no other one. -/
theorem Minting.others (h : m.Minting w) {before after : List Task}
    (htasks : w.tasks = before ++ t :: after) (hruns : m.runs t = true)
    (ht' : t' ∈ before ++ after) : m.runs t' = false := by
  have halone := h.alone
  rw [htasks, List.countP_append, List.countP_cons_of_pos hruns] at halone
  have hnone : (before ++ after).countP m.runs = 0 := by
    rw [List.countP_append]
    omega
  rw [Bool.eq_false_iff]
  exact List.countP_eq_zero.1 hnone t' ht'

/-- Nothing is owned when a reconcile of the requirement comes to make an operation. -/
theorem Minting.unminted_of_creates (h : m.Minting w) (ht : t ∈ w.tasks) (hruns : m.runs t = true)
    {next : Except Error Operation → Plan Action}
    (hrest : t.rest = .call t.namespaceName (.createOperation op) next) : m.Unminted w.cluster := by
  have hobeys := h.obeys t ht
  rw [hrest] at hobeys
  obtain ⟨uid, operations, huid, hpast, hnone⟩ := hobeys.1 op rfl
  rw [(h.fits t ht (uid_of_runs hruns)).2] at hpast
  rw [uid_of_runs hruns, Option.some.injEq] at huid
  exact h.unminted t ht hruns operations hpast (huid ▸ hnone)

/-- A call that takes effect leaves one operation at most that is owned. -/
theorem Minting.minted_of_serve (h : m.Minting w) (ht : t ∈ w.tasks) {call : Call}
    {next : Except Error call.Reply → Plan Action}
    (hrest : t.rest = .call t.namespaceName call next) (view : Cluster)
    (hroom : w.cluster.HasRoom t.namespaceName call) :
    m.Minted (Cluster.serve t.namespaceName view w.cluster call).2 := by
  have hchanges : w.cluster.Changes (Cluster.Exchanges t.namespaceName call) (Cluster.Adds call)
      (Cluster.serve t.namespaceName view w.cluster call).2 :=
    Cluster.serve_changes h.consistent.orderly hroom fun op hop =>
      (h.consistent.createOperation ht hrest hop).1
  have hspares (old : Operation) (hold : old ∈ w.cluster.operations) (new : Operation)
      (hexchange : Cluster.Exchanges t.namespaceName call old new) : m.Spares old new :=
    spares_of_replaces (h.consistent.replaces ht hrest hold hexchange)
  by_cases hcreates : ∃ op, call = .createOperation op
  · obtain ⟨op, rfl⟩ := hcreates
    cases hruns : m.runs t with
    | true =>
      -- The operation is added where none is owned, and the next reconcile finds it.
      obtain ⟨-, uid, huid, rfl⟩ := (h.consistent.move ht hrest).createOperation_cases
      rw [uid_of_runs hruns, Option.some.injEq] at huid
      subst huid
      exact (h.unminted_of_creates ht hruns hrest).minted_append rfl
        (finds_newOperation (h.fits t ht (uid_of_runs hruns)).2 _ _)
    | false =>
      refine h.minted.changes h.consistent.orderly (hchanges.mono hspares ?_) (fun _ _ => id)
        fun new (hmakes : t.Makes new) => owns_of_makes hmakes hruns
      rintro new ⟨op', hop', howners⟩
      obtain ⟨-, uid, huid, hreferences⟩ := h.consistent.createOperation ht hrest hop'
      refine ⟨uid, huid, ?_⟩
      unfold Metadata.owners
      rw [howners, hreferences]
      rfl
  · refine h.minted.changes h.consistent.orderly (hchanges.mono hspares ?_) (fun _ _ => id)
      fun new (hnever : False) => hnever.elim
    rintro new ⟨op, rfl, -⟩
    exact hcreates ⟨op, rfl⟩

theorem Minting.minted_of_call (h : m.Minting w) (ht : t ∈ w.tasks) {call : Call}
    {next : Except Error call.Reply → Plan Action}
    (hrest : t.rest = .call t.namespaceName call next) (fate : Fate) (view : Cluster)
    (hroom : (∀ e, fate ≠ .lost e) → w.cluster.HasRoom t.namespaceName call) :
    m.Minted (w.cluster.deliver t.namespaceName view call fate).2 := by
  rcases w.cluster.deliver_cases t.namespaceName view call fate with hsame | ⟨hfate, hserved⟩
  · rw [hsame]
    exact h.minted
  · rw [hserved]
    exact h.minted_of_serve ht hrest view (hroom hfate)

/-- A reconcile that has just found nothing is right about it. -/
theorem Minting.unminted_of_answered (h : m.Minting w) (ht : t ∈ w.tasks)
    (hruns : m.runs t = true) {call : Call} {fate : Fate} {operations : List Operation}
    {next : Except Error call.Reply → Plan Action}
    (hrest : t.rest = .call t.namespaceName call next)
    (hpast : (t.answered hrest (w.cluster.deliver t.namespaceName w.cluster call fate).1).past =
      [⟨.listOperations m.template.key, .ok operations⟩])
    (hnone : operations.find? (isControlledBy m.uid) = none) :
    m.Unminted (w.cluster.deliver t.namespaceName w.cluster call fate).2 := by
  obtain ⟨hlast, -⟩ := List.cons.inj hpast
  rw [Answered.mk.injEq] at hlast
  obtain ⟨rfl, hreply⟩ := hlast
  have hlisted := World.listOperations_of_deliver (eq_of_heq hreply)
  rw [namespaceName_of_runs (h.fits t ht) hruns] at hlisted
  have hunminted : m.Unminted w.cluster := h.minted.unminted_of_list (hlisted ▸ hnone)
  cases fate with
  | served => exact hunminted
  | lost e => exact hunminted
  | unheard e => exact hunminted

/-- What others find missing stays so when a reconcile of another requirement makes a call. -/
theorem Minting.unminted_of_call (h : m.Minting w) (ht : t ∈ w.tasks) (hruns : m.runs t = false)
    {call : Call} {next : Except Error call.Reply → Plan Action}
    (hrest : t.rest = .call t.namespaceName call next) {fate : Fate} (view : Cluster)
    (hroom : (∀ e, fate ≠ .lost e) → w.cluster.HasRoom t.namespaceName call)
    (hnone : m.Unminted w.cluster) :
    m.Unminted (w.cluster.deliver t.namespaceName view call fate).2 :=
  hnone.changes (h.consistent.call_changes ht hrest view hroom)
    (fun _ _ hwrite => spares_of_replaces hwrite.2) fun _ hmakes => owns_of_makes hmakes hruns

/-- A reconcile goes on, beside others that find nothing wrong. -/
theorem Minting.advance (h : m.Minting w) {before after : List Task} {former : List Cluster}
    (htasks : w.tasks = before ++ t :: after) (hrequirement : t'.requirement = t.requirement)
    (hconsistent :
      World.Consistent { cluster := c', former := former, tasks := before ++ t' :: after })
    (hminted : m.Minted c') (hobeys : t'.rest.Obeys (MakesUnfound t'.requirement) t'.past)
    (hunminted : ∀ u, u = t' ∨ u ∈ before ++ after → m.runs u = true → ∀ operations,
      u.past = [⟨.listOperations m.template.key, .ok operations⟩] →
      operations.find? (isControlledBy m.uid) = none → m.Unminted c') :
    m.Minting { cluster := c', former := former, tasks := before ++ t' :: after } := by
  refine ⟨hconsistent, hminted, fun u hu => ?_, ?_, fun u hu => ?_, fun u hu => hunminted u ?_⟩
  · rcases World.mem_tasks_of_ne htasks hu with rfl | hu
    · exact hrequirement ▸ h.fits t (World.mem_tasks htasks)
    · exact h.fits u hu
  · have hsame : m.runs t' = m.runs t := by
      unfold runs
      rw [hrequirement]
    have halone := h.alone
    rw [htasks, List.countP_append, List.countP_cons, ← hsame] at halone
    rwa [List.countP_append, List.countP_cons]
  · rcases World.mem_tasks_of_ne htasks hu with rfl | hu
    · exact hobeys
    · exact h.obeys u hu
  · rcases List.mem_append.1 hu with hu | hu
    · exact .inr (List.mem_append_left _ hu)
    · exact (List.mem_cons.1 hu).imp_right (List.mem_append_right _)

/-- A reconcile that goes on without a call changes nothing else. -/
theorem Minting.quiet (h : m.Minting w) {before after : List Task} {rest : Plan Action}
    (htasks : w.tasks = before ++ t :: after) {hwithin : rest.Within t.namespaceName}
    (hconsistent : World.Consistent { w with tasks := before ++ t.resume rest hwithin :: after })
    (hobeys : t.rest.Obeys (MakesUnfound t.requirement) t.past →
      rest.Obeys (MakesUnfound t.requirement) t.past) :
    m.Minting { w with tasks := before ++ t.resume rest hwithin :: after } := by
  have ht := World.mem_tasks htasks
  refine h.advance htasks rfl hconsistent h.minted (hobeys (h.obeys t ht)) fun u hu => ?_
  rcases hu with rfl | hu
  · exact h.unminted t ht
  · exact h.unminted u ((World.sublist_tasks htasks).subset hu)

theorem Minting.call (h : m.Minting w) {before after : List Task} {call : Call}
    {next : Except Error call.Reply → Plan Action} (fate : Fate)
    (htasks : w.tasks = before ++ t :: after) (hrest : t.rest = .call t.namespaceName call next)
    (hroom : (∀ e, fate ≠ .lost e) → w.cluster.HasRoom t.namespaceName call) :
    m.Minting
      { cluster := (w.cluster.deliver t.namespaceName w.cluster call fate).2
        former := w.cluster :: w.former
        tasks := before ++ t.answered hrest
          (w.cluster.deliver t.namespaceName w.cluster call fate).1 :: after } := by
  have ht := World.mem_tasks htasks
  have hobeys := h.obeys t ht
  rw [hrest] at hobeys
  refine h.advance htasks rfl
    (h.consistent.step (minting_faithful m) (.call fate htasks hrest rfl hroom))
    (h.minted_of_call ht hrest fate w.cluster hroom) (hobeys.2 _) ?_
  intro u hu hruns operations hpast hnone
  rcases hu with rfl | hu
  · exact h.unminted_of_answered ht hruns hrest hpast hnone
  · -- The reconcile that finds nothing is the only one of the requirement.
    have hother : m.runs t = false := by
      rw [Bool.eq_false_iff]
      intro hruns'
      rw [h.others htasks hruns' hu] at hruns
      cases hruns
    exact h.unminted_of_call ht hother hrest w.cluster hroom
      (h.unminted u ((World.sublist_tasks htasks).subset hu) hruns operations hpast hnone)

theorem Minting.start (h : m.Minting w) (settings : Settings) {occasion : Occasion}
    {r : Requirement} (hstarts : (minting m).starts w occasion r) :
    m.Minting { w with tasks := Task.start settings occasion r :: w.tasks } := by
  obtain ⟨hfits, halone⟩ := hstarts
  refine ⟨h.consistent.step (minting_faithful m) (.start settings ⟨hfits, halone⟩), h.minted,
    fun u hu => ?_, ?_, fun u hu => ?_, fun u hu => ?_⟩
  · rcases List.mem_cons.1 hu with rfl | hu
    · exact hfits
    · exact h.fits u hu
  · rw [List.countP_cons]
    split
    · rename_i hruns
      rw [List.countP_eq_zero.2 fun u hu => by simp [halone (uid_of_runs hruns) u hu]]
    · exact h.alone
  · rcases List.mem_cons.1 hu with rfl | hu
    · exact plan_makesUnfound settings occasion r
    · exact h.obeys u hu
  · rcases List.mem_cons.1 hu with rfl | hu
    · exact fun _ _ hpast => (nomatch hpast)
    · exact h.unminted u hu

theorem Minting.stop (h : m.Minting w) {before after : List Task}
    (htasks : w.tasks = before ++ t :: after) :
    m.Minting { w with tasks := before ++ after } := by
  have hsublist := World.sublist_tasks htasks
  exact ⟨h.consistent.step (minting_faithful m) (.stop htasks), h.minted,
    fun u hu => h.fits u (hsublist.subset hu), hsublist.countP_le.trans h.alone,
    fun u hu => h.obeys u (hsublist.subset hu), fun u hu => h.unminted u (hsublist.subset hu)⟩

/-- What others may write spares what is owned. -/
theorem spares_of_license (h : (minting m).license.write old new) (version : String) :
    m.Spares old (new.stamped version) := by
  intro howns
  obtain ⟨hlabels, hcontrol⟩ := h
  obtain ⟨hold, hcontrolled⟩ := hcontrol howns
  refine ⟨hold, fun hfinds => ⟨hcontrolled, ?_⟩⟩
  have hlabelled := hfinds.labelled
  unfold Operation.hasLabel at hlabelled ⊢
  rwa [show (new.stamped version).metadata.labels = _ from hlabels]

theorem Minting.otherWrite (h : m.Minting w) (hothers : Others (minting m).license w.cluster c') :
    m.Minting { w with cluster := c', former := w.cluster :: w.former } := by
  have hchanges := Cluster.others_changes hothers
  have hwrite (old new : Operation) (hw : ∃ op version, (minting m).license.write old op ∧
      new = op.stamped version) : m.Spares old new := by
    obtain ⟨op, version, hlicense, rfl⟩ := hw
    exact spares_of_license hlicense version
  have hmake (new : Operation)
      (hm : ∃ op version, (minting m).license.make op ∧ new = op.stamped version) :
      m.owns new = false := by
    obtain ⟨op, version, hlicense, rfl⟩ := hm
    exact hlicense
  exact ⟨h.consistent.step (minting_faithful m) (.others hothers),
    h.minted.changes h.consistent.orderly hchanges hwrite hmake, h.fits, h.alone, h.obeys,
    fun u hu hruns operations hpast hnone =>
      (h.unminted u hu hruns operations hpast hnone).changes hchanges hwrite hmake⟩

/-- Every step keeps one operation at most that is owned, and it is found. -/
theorem Minting.step (h : m.Minting w) (hstep : Step (minting m) w w') : m.Minting w' := by
  have hconsistent := h.consistent.step (minting_faithful m) hstep
  cases hstep with
  | start settings hstarts => exact h.start settings hstarts
  | event htasks hrest => exact h.quiet htasks hconsistent fun hobeys => by rwa [hrest] at hobeys
  | measure htasks hrest =>
    exact h.quiet htasks hconsistent fun hobeys => by rwa [hrest] at hobeys
  | call fate htasks hrest hview hroom =>
    obtain rfl := Task.namespaceName_of_call hrest
    cases hview
    exact h.call fate htasks hrest hroom
  | stop htasks => exact h.stop htasks
  | others hothers => exact h.otherWrite hothers

end Minter

/--
Whatever becomes of the calls of a requirement's reconciles, whenever they are cut off and from
whichever snapshot the next one starts: as long as its namespace and its template stay and no two
of its reconciles overlap, at most one stored operation has it as a controlling owner, and an
operation is made only while there is none.
-/
theorem single_minting {m : Minter} {c : Cluster} (hc : c.Orderly)
    (hnew : ∀ op ∈ c.operations, m.owns op = false) {w : World}
    (h : Reachable (minting m) { cluster := c } w) :
    w.cluster.operations.countP m.owns ≤ 1 ∧
      ∀ t ∈ w.tasks, t.requirement.metadata.uid = some m.uid → ∀ n op next,
        t.rest = .call n (.createOperation op) next →
          ∀ stored ∈ w.cluster.operations, m.owns stored = false := by
  have hminting : m.Minting w :=
    h.induction_of (Minter.Minting.of_unminted hc hnew) fun _ _ hw hstep => hw.step hstep
  refine ⟨hminting.minted.once, fun t ht huid n op next hrest => ?_⟩
  obtain rfl := Task.namespaceName_of_call hrest
  exact hminting.unminted_of_creates ht (decide_eq_true huid) hrest

/-! ### A reply that gets lost -/

theorem Cluster.orderly_of_operations_eq_nil {c : Cluster} (h : c.operations = []) : c.Orderly := by
  refine ⟨fun op hop => ?_, ?_, fun op hop => ?_⟩
  · simp [h] at hop
  · simp [h]
  · simp [h] at hop

namespace Reconcile

variable {settings : Settings} {occasion : Occasion} {r : Requirement}

/-- A requirement without caching lists the operations of its key, and makes one if need be. -/
theorem plan_of_unbound (hfrom : AdvancesFrom r .operating)
    (hplace : r.metadata.namespaceName.isSome) {uid : String} (huid : r.metadata.uid = some uid)
    (hunbound : r.known.operationName = none) (hplain : r.spec.enableCache = false) :
    ∃ next, plan settings occasion r =
        .call r.namespaceName (.listOperations r.spec.template.key) next ∧
      ∀ operations, operations.find? (isControlledBy uid) = none →
        ∃ next', next (.ok operations) =
          .call r.namespaceName
            (.createOperation (newOperation r r.spec.template.key uid occasion.suffixText))
            next' := by
  have hplan : plan settings occasion r = ensureOwned settings r r.known occasion := by
    rw [plan_of_advancesFrom hfrom hplace]
    unfold advance
    rw [hfrom.2.2, hunbound]
    exact if_neg (by simp [hplain])
  rw [hplan]
  unfold ensureOwned uidOf ownOperation
  rw [huid]
  refine ⟨_, rfl, fun operations hnone => ?_⟩
  simp only [Plan.bind, hnone]
  exact ⟨_, rfl⟩

end Reconcile

/-- A requirement without caching that has been taken in. -/
def plainRequirement : Requirement :=
  { sampleRequirement with
    metadata := { sampleRequirement.metadata with finalizers := some [requirementFinalizer] }
    spec := { sampleRequirement.spec with enableCache := false }
    status := some { phase := .operating } }

/-- The requirement without caching, and what it asks for. -/
def plainMinter : Minter := ⟨"dev", "sample", plainRequirement.spec.template⟩

/--
The operation of a requirement is made, but its reconcile hears of a failure. The next one starts
from the same snapshot and is told of the operation.
-/
theorem single_minting_sample : ∃ w, Reachable (minting plainMinter)
      { cluster := { requirements := [plainRequirement] } } w ∧
    (∃ t ∈ w.tasks, plainMinter.runs t = true ∧
      (∃ n op next, t.rest = .call n (.createOperation op) next) ∧
      w.cluster.operations.countP plainMinter.owns = 0) ∧
    ∃ w', Reachable (minting plainMinter) w w' ∧ w'.cluster.operations.countP plainMinter.owns = 1 ∧
      ∃ t ∈ w'.tasks, plainMinter.runs t = true ∧ ∃ key operations,
        t.past = [⟨.listOperations key, .ok operations⟩] ∧
          (operations.find? (isControlledBy "sample")).isSome := by
  let r := plainRequirement
  let c : Cluster := { requirements := [r] }
  have hc : c.Orderly := Cluster.orderly_of_operations_eq_nil rfl
  have hnew : ∀ op ∈ c.operations, plainMinter.owns op = false := by simp [c]
  have hview (w : World) : (minting plainMinter).views w w.cluster := rfl
  have hfrom : AdvancesFrom r .operating := ⟨rfl, by decide, rfl⟩
  have hfits : plainMinter.Fits r := fun _ => ⟨rfl, rfl⟩
  have hstarts (c : Cluster) (former : List Cluster) :
      (minting plainMinter).starts { cluster := c, former := former } sampleOccasion r :=
    ⟨hfits, by simp⟩
  obtain ⟨next, hplan, hnext⟩ := @plan_of_unbound {} sampleOccasion r hfrom rfl "sample" rfl rfl rfl
  obtain ⟨next', hcreates⟩ := hnext [] rfl
  have hfirst : Leads (minting plainMinter) { cluster := c } c [] := ⟨[], .refl⟩
  -- The first reconcile finds nothing.
  let t : Task := (Task.start {} sampleOccasion r).answered hplan (.ok [])
  have hrest : t.rest = .call t.namespaceName (.createOperation
      (newOperation r r.spec.template.key "sample" sampleOccasion.suffixText)) next' := hcreates
  obtain ⟨former, hlisted⟩ : Leads (minting plainMinter) { cluster := c } c [t] :=
    (hfirst.start {} (hstarts c)).answer hview hplan .served fun _ h => nomatch h
  obtain ⟨-, hunminted⟩ := single_minting hc hnew hlisted
  have hnone := hunminted t List.mem_cons_self rfl _ _ next' hrest
  refine ⟨_, hlisted, ⟨t, List.mem_cons_self, rfl, ⟨_, _, _, hrest⟩,
    List.countP_eq_zero.2 fun op hop => by simp [hnone op hop]⟩, ?_⟩
  -- The call takes effect; the reconcile breaks off, and another one looks for the operation.
  have hmade := Leads.answer (c := c) (t := t) ⟨former, .refl⟩ hview hrest
    (.unheard .ownerWithoutUid) fun _ _ => rfl
  obtain ⟨former', hfound⟩ := (hmade.stop.start {} (hstarts _)).answer hview hplan .served
    fun _ h => nomatch h
  have hfinds := Minter.finds_newOperation (m := plainMinter) (r := r) rfl
    sampleOccasion.suffixText c
  refine ⟨_, hfound, rfl, _, List.mem_cons_self, rfl, _, _, rfl, ?_⟩
  refine List.find?_isSome.2 ⟨_, List.mem_filter.2 ⟨List.mem_cons_self, ?_⟩, hfinds.controlled⟩
  simpa using ⟨rfl, hfinds.labelled⟩

end WarmPool
