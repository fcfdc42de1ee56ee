import Mathlib.Logic.Relation
import WarmPool.Proofs.Report
import WarmPool.Proofs.RequirementWrite
import WarmPool.Proofs.System

/-!
# The life of one requirement

A stored requirement with the reconcile that is under way, if there is one. Reconciles come one at a
time, each with what is stored when it starts. Nothing is assumed of how they are answered: a call
may take effect or not, and the reply may be any (`Lifetime.Step`). In between and meanwhile users
edit the requirement and ask for its deletion (`Requirement.Edits`).
-/

namespace WarmPool

open Reconcile

/-! ### What users change -/

/-- What users may make of a requirement: not its place, its UID or its status, and a deletion that
was asked for is not called off. -/
structure Requirement.Edits (r r' : Requirement) : Prop where
  place : r'.metadata.place = r.metadata.place
  uid : r'.metadata.uid = r.metadata.uid
  status : r'.status = r.status
  deleting : r.isDeleting = true → r'.isDeleting = true
  timely : r.Timely → r'.Timely

namespace Requirement

variable {r r' r'' : Requirement}

theorem Edits.refl (r : Requirement) : r.Edits r := ⟨rfl, rfl, rfl, id, id⟩

theorem Edits.trans (h : r.Edits r') (h' : r'.Edits r'') : r.Edits r'' :=
  ⟨h'.place.trans h.place, h'.uid.trans h.uid, h'.status.trans h.status,
    fun hdeleting => h'.deleting (h.deleting hdeleting),
    fun htimely => h'.timely (h.timely htimely)⟩

theorem Edits.known (h : r.Edits r') : r'.known = r.known := known_congr h.status

theorem Touches.edits (h : r.Touches r') : r.Edits r' :=
  ⟨h.place, h.uid, h.status, h.deleting, h.timely⟩

theorem edits_dropFinalizer (r : Requirement) (finalizer : String) :
    r.Edits (r.dropFinalizer finalizer) := ⟨rfl, rfl, rfl, id, id⟩

end Requirement

/-! ### What calls change -/

/-- A requirement without a finalizer, with which it may go. -/
def Requirement.giveUp (r : Requirement) (finalizer : String) : Option Requirement :=
  if !r.metadata.hasFinalizer finalizer then some r
  else if Cluster.isGone (r.dropFinalizer finalizer) then none
  else some (r.dropFinalizer finalizer)

/-- What a call of its reconcile makes of a stored requirement. -/
def Requirement.after (r : Requirement) : Call → Option Requirement
  | .patchStatus _ status => some (r.withStatus status)
  | .addFinalizer _ finalizer => some (r.takeFinalizer finalizer)
  | .removeFinalizer _ finalizer => r.giveUp finalizer
  | _ => some r

/-- Only a status write does more than an edit. -/
theorem Requirement.edits_after {r r' : Requirement} {call : Call}
    (hcall : ∀ name status, call ≠ .patchStatus name status) (h : r.after call = some r') :
    r.Edits r' := by
  cases call with
  | patchStatus name status => exact absurd rfl (hcall name status)
  | addFinalizer name finalizer =>
    cases h
    exact (r.touches_takeFinalizer finalizer).edits
  | removeFinalizer name finalizer =>
    change r.giveUp finalizer = some r' at h
    unfold giveUp at h
    split at h
    · cases h
      exact .refl r
    · split at h
      · cases h
      · cases h
        exact r.edits_dropFinalizer finalizer
  | _ =>
    cases h
    exact .refl r

/-- The requirement found gives up a finalizer. -/
theorem Cluster.requirement?_removeFinalizer_of_stored {c : Cluster} {namespaceName name : String}
    {r : Requirement} (hstored : c.requirement? namespaceName name = some r)
    (finalizer : String) :
    (c.removeFinalizer namespaceName name finalizer).requirement? namespaceName name =
      r.giveUp finalizer := by
  unfold removeFinalizer Requirement.giveUp
  simp only [hstored]
  split
  · exact hstored
  · split
    · exact requirement?_removeRequirement c namespaceName name
    · have hkept : ∀ x ∈ c.requirements, x.metadata.isAt namespaceName name = true →
          (x.dropFinalizer finalizer).metadata.isAt namespaceName name = true :=
        fun _ _ hat => hat
      exact (requirement?_updateRequirement hkept).trans (congrArg (Option.map _) hstored)

/-- The calls of a reconcile change the stored requirement of their place like this. -/
theorem Cluster.requirement?_serve {c view : Cluster} {namespaceName : String}
    {occasion : Occasion} {q r : Requirement} {past : List Answered} {call : Call}
    (htimely : ∀ r ∈ c.requirements, r.Timely) (hq : q.known.Timely) (hnow : occasion.now.Valid)
    (hmove : Move occasion q past call)
    (hstored : c.requirement? namespaceName q.name = some r) :
    (serve namespaceName view c call).2.requirement? namespaceName q.name = r.after call := by
  cases call with
  | patchStatus name status =>
    obtain ⟨rfl, -, -, hstatus⟩ := hmove.patchStatus_cases
    exact (requirement?_patchStatus htimely (hstatus hq hnow)).trans
      (congrArg (Option.map _) hstored)
  | addFinalizer name finalizer =>
    obtain ⟨rfl, rfl⟩ := hmove.addFinalizer_cases
    exact (requirement?_addFinalizer c _ _ _).trans (congrArg (Option.map _) hstored)
  | removeFinalizer name finalizer =>
    obtain ⟨rfl, -⟩ := hmove.removeFinalizer_cases
    exact requirement?_removeFinalizer_of_stored hstored finalizer
  | _ =>
    refine (congrArg (List.find? _) (requirements_serve rfl)).trans hstored

/-! ### Runs -/

/-- A requirement, as long as it is stored, with the reconcile under way. -/
structure Lifetime where
  stored : Option Requirement
  task : Option Task := none

namespace Lifetime

/-- A requirement as it is created. -/
def created (r : Requirement) : Lifetime := { stored := some r }

/-- A step in the life of a requirement. -/
inductive Step (l : Lifetime) : Lifetime → Prop
  | start (settings : Settings) {occasion : Occasion} {r : Requirement} (htask : l.task = none)
      (hstored : l.stored = some r) (hnow : occasion.now.Valid) :
      Step l { l with task := some (Task.start settings occasion r) }
  | event {t : Task} {e : Event} {next : Plan Action} (htask : l.task = some t)
      (hrest : t.rest = .event e next) : Step l { l with task := some (t.told hrest) }
  | measure {t : Task} {m : Measure} {next : Plan Action} (htask : l.task = some t)
      (hrest : t.rest = .measure m next) : Step l { l with task := some (t.counted hrest) }
  /-- A call takes no effect, whatever is answered. -/
  | lost {t : Task} {n : String} {call : Call} {next : Except Error call.Reply → Plan Action}
      (htask : l.task = some t) (hrest : t.rest = .call n call next)
      (reply : Except Error call.Reply) :
      Step l { l with task := some (t.answered hrest reply) }
  /-- A call takes effect, whatever is answered. -/
  | served {t : Task} {n : String} {call : Call} {next : Except Error call.Reply → Plan Action}
      (htask : l.task = some t) (hrest : t.rest = .call n call next)
      (reply : Except Error call.Reply) :
      Step l
        { stored := l.stored.bind (·.after call), task := some (t.answered hrest reply) }
  /-- A reconcile is over, or cut off. -/
  | stop : Step l { l with task := none }
  | edit {r r' : Requirement} (hstored : l.stored = some r) (h : r.Edits r') :
      Step l { l with stored := some r' }
  | remove : Step l { l with stored := none }

/-- A run leads from one state to another. -/
abbrev Runs : Lifetime → Lifetime → Prop := Relation.ReflTransGen Step

end Lifetime

end WarmPool
