import WarmPool.Proofs.Plan
import WarmPool.Reconcile.Dispatch

/-!
# The namespace of a plan

`Plan.Within n` says that a plan makes its calls in the namespace `n`, whatever the replies. A plan
is within a namespace if its parts are, so there is one lemma for each part of a reconcile, and from
them a reconcile is within the namespace of its requirement (`plan_within`).
-/

namespace WarmPool.Reconcile

namespace Plan

variable {α β : Type} {n : String}

/-- Every call of the plan is made in this namespace. -/
def Within (n : String) : Plan α → Prop
  | done _ => True
  | call n' _ next => n' = n ∧ ∀ reply, (next reply).Within n
  | event _ next => next.Within n
  | measure _ next => next.Within n

theorem Within.bind {p : Plan α} {f : α → Plan β} (h : p.Within n) (hf : ∀ a, (f a).Within n) :
    (p >>= f).Within n := by
  show (Plan.bind p f).Within n
  induction p with
  | done result =>
    cases result with
    | error e => exact trivial
    | ok a => exact hf a
  | call n' c next ih => exact ⟨h.1, fun reply => ih reply (h.2 reply)⟩
  | event e next ih => exact ih h
  | measure m next ih => exact ih h

theorem Within.attempt_bind {c : Call} {f : Except Error c.Reply → Plan α}
    (hf : ∀ reply, (f reply).Within n) : (attempt n c >>= f).Within n := ⟨rfl, hf⟩

theorem Within.ask_bind {c : Call} {f : c.Reply → Plan α} (hf : ∀ a, (f a).Within n) :
    (ask n c >>= f).Within n := by
  refine ⟨rfl, fun reply => ?_⟩
  cases reply with
  | error e => exact trivial
  | ok a => exact hf a

theorem Within.orFail_bind {e : Error} {o : Option β} {f : β → Plan α}
    (hf : ∀ b, (f b).Within n) : (orFail e o >>= f).Within n := by
  cases o with
  | none => exact trivial
  | some b => exact hf b

end Plan

variable {settings : Settings} {occasion : Occasion} {r : Requirement} {s : RequirementStatus}
  {now : Timestamp} {key uid : String}

/-! ### Reports -/

theorem commit_within : (commit r s).Within r.namespaceName := by
  unfold commit
  split
  · exact trivial
  · exact Plan.Within.ask_bind fun _ => trivial

theorem commitThen_within {after : Duration} : (commitThen r s after).Within r.namespaceName :=
  commit_within.bind fun _ => trivial

/-! ### Acquiring -/

theorem takeIn_within : (takeIn r s now).Within r.namespaceName := by
  unfold takeIn
  cases hfinalizer : r.hasFinalizer with
  | true => exact commitThen_within
  | false => exact Plan.Within.ask_bind fun _ => commitThen_within

theorem makeCache_within : (makeCache settings r s key now).Within r.namespaceName := by
  unfold makeCache
  refine Plan.Within.ask_bind fun created => ?_
  cases created with
  | false => exact commitThen_within
  | true => exact commitThen_within

theorem claim_within {cache : String} {op : Operation} :
    (claim settings r s cache uid op now).Within r.namespaceName := by
  unfold claim versionOf
  refine Plan.Within.orFail_bind fun version => Plan.Within.attempt_bind fun reply => ?_
  cases reply with
  | ok _ => exact commitThen_within
  | error e =>
    show Plan.Within _ (ite _ _ _)
    split
    · exact trivial
    · exact trivial

theorem searchPool_within {cache : Cache} :
    (searchPool settings r s key uid cache now).Within r.namespaceName := by
  unfold searchPool
  refine Plan.Within.ask_bind fun operations => ?_
  cases Pool.claimedBy? uid operations with
  | some op => exact commitThen_within
  | none =>
    cases Pool.select? cache operations with
    | some op => exact claim_within
    | none => exact commitThen_within

theorem checkCache_within : (checkCache settings r s now).Within r.namespaceName := by
  unfold checkCache uidOf
  refine Plan.Within.orFail_bind fun uid => Plan.Within.ask_bind fun found => ?_
  cases found with
  | some cache => exact searchPool_within
  | none => exact makeCache_within

theorem ownOperation_within {suffix : String} :
    (ownOperation r key uid suffix).Within r.namespaceName := by
  unfold ownOperation
  refine Plan.Within.ask_bind fun operations => ?_
  split
  · exact trivial
  · exact Plan.Within.ask_bind fun _ => trivial

theorem ensureOwned_within : (ensureOwned settings r s occasion).Within r.namespaceName := by
  unfold ensureOwned uidOf
  refine Plan.Within.orFail_bind fun uid => ?_
  exact ownOperation_within.bind fun _ => commitThen_within

/-! ### Following -/

theorem showReady_within {operation : String} :
    (showReady settings r s operation now).Within r.namespaceName := by
  unfold showReady
  refine commit_within.bind fun _ => ?_
  split
  · exact trivial
  · exact trivial

theorem follow_within {operation : String} :
    (follow settings r s operation now).Within r.namespaceName := by
  unfold follow uidOf
  refine Plan.Within.orFail_bind fun uid => Plan.Within.ask_bind fun found => ?_
  cases found with
  | none => exact commitThen_within
  | some op =>
    show Plan.Within _ (ite _ _ (ite _ _ _))
    split
    · exact commitThen_within
    · split
      · exact showReady_within
      · exact commitThen_within

/-! ### Releasing -/

theorem releaseAll_within {namespaceName : String} {operations : List Operation} :
    (releaseAll namespaceName uid operations).Within namespaceName := by
  induction operations with
  | nil => exact trivial
  | cons op rest ih =>
    unfold releaseAll
    split
    · have hrelease : (release namespaceName uid op).Within namespaceName := by
        unfold release versionOf
        exact Plan.Within.orFail_bind fun _ => Plan.Within.ask_bind fun _ => trivial
      exact hrelease.bind fun _ => ih
    · exact ih

theorem releaseClaims_within : (releaseClaims r s).Within r.namespaceName := by
  unfold releaseClaims uidOf
  split
  · exact trivial
  · exact Plan.Within.orFail_bind fun _ => Plan.Within.ask_bind fun _ => releaseAll_within

theorem delete_within : (delete r s).Within r.namespaceName := by
  unfold delete
  split
  · exact trivial
  · split
    · refine releaseClaims_within.bind fun _ => commit_within.bind fun _ => ?_
      exact Plan.Within.ask_bind fun _ => trivial
    · exact commit_within.bind fun _ => trivial

/-! ### The whole reconcile -/

theorem reportInvalid_within {e : Error} : (reportInvalid r s e now).Within r.namespaceName := by
  unfold reportInvalid
  refine commit_within.bind fun written => ?_
  cases written with
  | false => exact trivial
  | true => exact trivial

theorem advance_within : (advance settings occasion r s).Within r.namespaceName := by
  unfold advance
  split
  · exact takeIn_within
  · exact checkCache_within
  · exact follow_within
  · split
    · exact commitThen_within
    · exact ensureOwned_within
  · exact follow_within
  · exact commitThen_within
  · exact trivial
  · exact trivial

/-- A reconcile makes every call in the namespace of its requirement. -/
theorem plan_within (settings : Settings) (occasion : Occasion) (r : Requirement) :
    (plan settings occasion r).Within r.namespaceName := by
  unfold plan
  show Plan.Within _ (ite _ _ (ite _ _ _))
  split
  · exact trivial
  · split
    · exact delete_within
    · split
      · exact reportInvalid_within
      · exact advance_within

end WarmPool.Reconcile
