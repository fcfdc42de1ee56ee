import WarmPool.Cluster
import WarmPool.Proofs.Move
import WarmPool.Proofs.Scope

/-!
# Reconciles and others on one cluster

The system in which reconciles run: a cluster, the reconciles under way and everything else that
writes to the cluster. A step starts a reconcile, lets one make its next call, stops one, or is a
write of someone else (`Step`). A call may fail before or after it takes effect (`Fate`). Who may
start, what reads show and what others write is up to its `Surroundings`.
-/

namespace WarmPool

open Reconcile

/-! ### Reconciles under way -/

/-- A reconcile under way: what it was given, its answered calls, and the rest of its plan. -/
structure Task where
  settings : Settings
  occasion : Occasion
  requirement : Requirement
  /-- The calls answered so far, the latest first. -/
  past : List Answered
  rest : Plan Action
  /-- The calls still to come are made in the namespace of the requirement. -/
  within : rest.Within requirement.namespaceName

namespace Task

/-- A reconcile at its start. -/
def start (settings : Settings) (occasion : Occasion) (r : Requirement) : Task :=
  ⟨settings, occasion, r, [], plan settings occasion r, plan_within settings occasion r⟩

/-- The namespace of the requirement. -/
def namespaceName (t : Task) : String := t.requirement.namespaceName

theorem within_of_rest (t : Task) {rest : Plan Action} (hrest : t.rest = rest) :
    rest.Within t.namespaceName := by
  rw [← hrest]
  exact t.within

/-- The reconcile when this is the rest of its plan. -/
def resume (t : Task) (rest : Plan Action) (h : rest.Within t.namespaceName) : Task :=
  { t with rest := rest, within := h }

/-- The reconcile after its next event. -/
def told (t : Task) {e : Event} {next : Plan Action} (hrest : t.rest = .event e next) : Task :=
  t.resume next (t.within_of_rest hrest :)

/-- The reconcile after its next measure. -/
def counted (t : Task) {m : Measure} {next : Plan Action} (hrest : t.rest = .measure m next) :
    Task := t.resume next (t.within_of_rest hrest :)

variable {t : Task} {n : String} {c : Call} {next : Except Error c.Reply → Plan Action}

/-- The next call is made in the namespace of the requirement. -/
theorem namespaceName_of_call (hrest : t.rest = .call n c next) : n = t.namespaceName :=
  (t.within_of_rest hrest).1

/-- The reconcile after the answer to its next call. -/
def answered (t : Task) (hrest : t.rest = .call n c next) (reply : Except Error c.Reply) : Task :=
  { t with
    past := ⟨c, reply⟩ :: t.past
    rest := next reply
    within := (t.within_of_rest hrest).2 reply }

theorem answered_requirement (hrest : t.rest = .call n c next) (reply : Except Error c.Reply) :
    (t.answered hrest reply).requirement = t.requirement := rfl

end Task

/-- How a call fares. -/
inductive Fate where
  /-- It takes effect, and the reply arrives. -/
  | served
  /-- It fails before it takes effect. -/
  | lost (e : Error)
  /-- It takes effect, but what arrives is a failure. -/
  | unheard (e : Error)

/-- The reply to a call and the cluster after it; reads are served from `view`. -/
def Cluster.deliver (c : Cluster) (namespaceName : String) (view : Cluster) (call : Call) :
    Fate → Except Error call.Reply × Cluster
  | .served => serve namespaceName view c call
  | .lost e => (.error e, c)
  | .unheard e => (.error e, (serve namespaceName view c call).2)

/-- The cluster after a call is the one before, or what the call made of it by taking effect. -/
theorem Cluster.deliver_cases (c : Cluster) (namespaceName : String) (view : Cluster) (call : Call)
    (fate : Fate) :
    (c.deliver namespaceName view call fate).2 = c ∨
      (∀ e, fate ≠ .lost e) ∧
        (c.deliver namespaceName view call fate).2 = (serve namespaceName view c call).2 := by
  cases fate with
  | served => exact .inr ⟨fun _ => Fate.noConfusion, rfl⟩
  | lost e => exact .inl rfl
  | unheard e => exact .inr ⟨fun _ => Fate.noConfusion, rfl⟩

/--
An operation to be made gets a name that none in its namespace has. Where it would not, the call
fails, as one that is lost.
-/
def Cluster.HasRoom (c : Cluster) (namespaceName : String) (call : Call) : Prop :=
  ∀ op, call = .createOperation op →
    c.operation? namespaceName (c.drawnName op.name) = none

/-! ### The writes of others -/

/-- The operation under a resource version. -/
def Operation.stamped (op : Operation) (version : String) : Operation :=
  { op with metadata := { op.metadata with resourceVersion := some version } }

/-- What others may write. -/
structure License where
  /-- The requirements that may take the place of those stored. -/
  requirements : Cluster → List Requirement → Prop
  /-- What may be made of a stored operation, its resource version apart. -/
  write : Operation → Operation → Prop
  /-- The operations that may be added. -/
  make : Operation → Prop

/-- A write of someone else. Every write of an operation gives it a new resource version. -/
inductive Others (license : License) (c : Cluster) : Cluster → Prop
  | requirements {l : List Requirement} (h : license.requirements c l) :
      Others license c { c with requirements := l }
  | caches (l : List Cache) : Others license c { c with caches := l }
  | write {namespaceName name : String} {op new : Operation}
      (hstored : c.operation? namespaceName name = some op)
      (hplace : new.metadata.isAt namespaceName name = true) (h : license.write op new) :
      Others license c
        (c.nextVersion.2.updateOperation namespaceName name fun _ => new.stamped c.nextVersion.1)
  | make {namespaceName name : String} {new : Operation}
      (hfree : c.operation? namespaceName name = none)
      (hplace : new.metadata.isAt namespaceName name = true) (h : license.make new) :
      Others license c
        { c.nextVersion.2 with operations := c.operations ++ [new.stamped c.nextVersion.1] }
  | remove (namespaceName name : String) : Others license c (c.removeOperation namespaceName name)
  /-- Versions are handed out for objects of other kinds as well. -/
  | version (n : Nat) : Others license c { c with version := c.version + n }

/-! ### Runs -/

/-- A cluster with the reconciles under way. -/
structure World where
  cluster : Cluster
  /-- The states before, the latest first. -/
  former : List Cluster := []
  tasks : List Task := []

/-- What the system leaves open. -/
structure Surroundings where
  /-- Whether a reconcile of this requirement may start. -/
  starts : World → Occasion → Requirement → Prop
  /-- Whether reads may be served from this state. -/
  views : World → Cluster → Prop
  license : License

/-- A step of the system. -/
inductive Step (env : Surroundings) (w : World) : World → Prop
  | start (settings : Settings) {occasion : Occasion} {r : Requirement}
      (h : env.starts w occasion r) :
      Step env w { w with tasks := Task.start settings occasion r :: w.tasks }
  | event {before after : List Task} {t : Task} {e : Event} {next : Plan Action}
      (htasks : w.tasks = before ++ t :: after) (hrest : t.rest = .event e next) :
      Step env w { w with tasks := before ++ t.told hrest :: after }
  | measure {before after : List Task} {t : Task} {m : Measure} {next : Plan Action}
      (htasks : w.tasks = before ++ t :: after) (hrest : t.rest = .measure m next) :
      Step env w { w with tasks := before ++ t.counted hrest :: after }
  | call {before after : List Task} {t : Task} {n : String} {c : Call}
      {next : Except Error c.Reply → Plan Action} {view : Cluster} (fate : Fate)
      (htasks : w.tasks = before ++ t :: after) (hrest : t.rest = .call n c next)
      (hview : env.views w view)
      (hroom : (∀ e, fate ≠ .lost e) → w.cluster.HasRoom n c) :
      Step env w
        { cluster := (w.cluster.deliver n view c fate).2
          former := w.cluster :: w.former
          tasks := before ++ t.answered hrest (w.cluster.deliver n view c fate).1 :: after }
  /-- A reconcile is over, or cut off by its deadline. -/
  | stop {before after : List Task} {t : Task} (htasks : w.tasks = before ++ t :: after) :
      Step env w { w with tasks := before ++ after }
  | others {c : Cluster} (h : Others env.license w.cluster c) :
      Step env w { w with cluster := c, former := w.cluster :: w.former }

/-- The worlds that runs lead to. -/
inductive Reachable (env : Surroundings) (w₀ : World) : World → Prop
  | refl : Reachable env w₀ w₀
  | step {w w' : World} (h : Reachable env w₀ w) (hstep : Step env w w') : Reachable env w₀ w'

/-- What holds at first and is kept by every step holds in every world that is reached. -/
theorem Reachable.induction_of {env : Surroundings} {w₀ w : World} {P : World → Prop}
    (h : Reachable env w₀ w) (h₀ : P w₀) (hstep : ∀ w w', P w → Step env w w' → P w') : P w := by
  induction h with
  | refl => exact h₀
  | step _ h ih => exact hstep _ _ ih h

end WarmPool
