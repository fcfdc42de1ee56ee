import WarmPool.Proofs.RequirementWrite
import WarmPool.Proofs.Versions

/-!
# One reconcile of a requirement at a time

The system in which a requirement keeps track of what it holds: a reconcile starts from the stored
requirement, no two reconciles of one requirement run at once, reads show the present state, and
others edit neither specifications nor our finalizer nor the labels of operations (`custodial`).
`World.Regular` is what holds in it of all requirements alike.
-/

namespace WarmPool

open Reconcile

/-! ### The surroundings -/

/--
How users and others edit requirements: they ask for deletion and change anything but what is ours,
and a requirement without finalizers may go.
-/
inductive Edits (c : Cluster) : List Requirement → Prop
  | edit (namespaceName name : String) (change : Requirement → Requirement)
      (h : ∀ r ∈ c.requirements, r.metadata.isAt namespaceName name = true →
        Requirement.Touches r (change r) ∧ (change r).hasFinalizer = r.hasFinalizer) :
      Edits c (c.updateRequirement namespaceName name change).requirements
  | remove {namespaceName name : String} {r : Requirement}
      (hstored : c.requirement? namespaceName name = some r)
      (hfree : r.metadata.finalizers.getD [] = []) :
      Edits c (c.removeRequirement namespaceName name).requirements

/--
A reconcile starts from the stored requirement while no other one of that requirement runs, and
others write operations but neither their labels nor references to the UIDs that are ours.
-/
def custodial (ours : String → Prop) : Surroundings where
  starts w occasion r :=
    occasion.now.Valid ∧ ∃ namespaceName name,
      w.cluster.requirement? namespaceName name = some r ∧
        ∀ t ∈ w.tasks, t.requirement.metadata.isAt namespaceName name = false
  views w view := view = w.cluster
  license :=
    { requirements := Edits
      write := fun old new => new.metadata.labels = old.metadata.labels ∧
        ∀ o ∈ new.metadata.owners, ours o.uid → o ∈ old.metadata.owners
      make := fun new => ∀ o ∈ new.metadata.owners, ¬ ours o.uid }

theorem custodial_faithful (ours : String → Prop) : (custodial ours).Faithful :=
  fun _ _ h => .inl h

/-! ### What holds of all requirements -/

/-- The place of the requirement of a reconcile. -/
def Task.place (t : Task) : Option String × Option String := t.requirement.metadata.place

/--
The world is consistent, all instants are valid, and no two reconciles are of requirements at one
place.
-/
structure World.Regular (w : World) : Prop where
  consistent : w.Consistent
  timely : ∀ r ∈ w.cluster.requirements, r.Timely
  tasks : ∀ t ∈ w.tasks, t.requirement.Timely ∧ t.occasion.now.Valid ∧
    ∃ namespaceName name, t.requirement.metadata.isAt namespaceName name = true
  apart : (w.tasks.map Task.place).Nodup

theorem World.regular_of_orderly {c : Cluster} (h : c.Orderly)
    (htimely : ∀ r ∈ c.requirements, r.Timely) : World.Regular { cluster := c } :=
  ⟨World.consistent_of_orderly h, htimely, fun _ ht => (nomatch ht), List.nodup_nil⟩

theorem Cluster.requirements_deliver {c : Cluster} {namespaceName : String} {call : Call}
    (hcall : call.writesRequirement = false) (view : Cluster) (fate : Fate) :
    (c.deliver namespaceName view call fate).2.requirements = c.requirements := by
  rcases c.deliver_cases namespaceName view call fate with hsame | ⟨-, hserved⟩
  · rw [hsame]
  · rw [hserved, requirements_serve hcall]

namespace World

variable {w : World} {t : Task} {c : Call} {next : Except Error c.Reply → Plan Action}
  {namespaceName name : String}

/-- A status that a reconcile is about to write has valid instants. -/
theorem Regular.timely_of_patchStatus (h : w.Regular) (ht : t ∈ w.tasks)
    {status : RequirementStatus} {next : Except Error Unit → Plan Action}
    (hrest : t.rest = .call t.namespaceName (.patchStatus name status) next) :
    name = t.requirement.name ∧ status.Timely ∧ Unwritten t.past ∧
      Writes t.requirement t.past status := by
  obtain ⟨rfl, hwrites, hfirst, htimely⟩ := (h.consistent.move ht hrest).patchStatus_cases
  obtain ⟨htimelyTask, hnow, -⟩ := h.tasks t ht
  exact ⟨rfl, htimely htimelyTask.2 hnow, hfirst, hwrites⟩

/-- The calls of a reconcile change the requirement at its place only. -/
theorem Regular.revises (h : w.Regular) (ht : t ∈ w.tasks)
    (hrest : t.rest = .call t.namespaceName c next)
    (hat : t.requirement.metadata.isAt namespaceName name = true) (view : Cluster) (fate : Fate) :
    w.cluster.Revises namespaceName name
      (w.cluster.deliver t.namespaceName view c fate).2 := by
  obtain ⟨htimely, hnow, -⟩ := h.tasks t ht
  rcases w.cluster.deliver_cases t.namespaceName view c fate with hsame | ⟨-, hserved⟩
  · exact .same (congrArg Cluster.requirements hsame)
  · rw [hserved, Task.namespaceName_eq hat]
    exact Cluster.revises_serve (h.consistent.move ht hrest) hat h.timely htimely.2 hnow

/-- A reconcile goes on, still of its requirement and on its occasion. -/
theorem Regular.advance (h : w.Regular) {before after : List Task} {t' : Task} {w' : World}
    (htasks : w.tasks = before ++ t :: after) (hconsistent : w'.Consistent)
    (htimely : ∀ r ∈ w'.cluster.requirements, r.Timely) (htasks' : w'.tasks = before ++ t' :: after)
    (hrequirement : t'.requirement = t.requirement) (hoccasion : t'.occasion = t.occasion) :
    w'.Regular := by
  refine ⟨hconsistent, htimely, fun u hu => ?_, ?_⟩
  · rcases mem_tasks_of_ne htasks (htasks' ▸ hu) with rfl | hu
    · rw [hrequirement, hoccasion]
      exact h.tasks t (mem_tasks htasks)
    · exact h.tasks u hu
  · have hplace : t'.place = t.place := congrArg (fun r => r.metadata.place) hrequirement
    have hapart := h.apart
    rw [htasks, List.map_append, List.map_cons] at hapart
    rw [htasks', List.map_append, List.map_cons, hplace]
    exact hapart

/-- Every step keeps a world regular. -/
theorem Regular.step {ours : String → Prop} {w' : World} (h : w.Regular)
    (hstep : Step (custodial ours) w w') : w'.Regular := by
  have hconsistent := h.consistent.step (custodial_faithful ours) hstep
  cases hstep with
  | @start settings occasion r hstart =>
    obtain ⟨hnow, namespaceName, name, hstored, hfree⟩ := hstart
    obtain ⟨hmem, hat⟩ := Cluster.mem_of_requirement? hstored
    refine ⟨hconsistent, h.timely, fun t ht => ?_, ?_⟩
    · rcases List.mem_cons.1 ht with rfl | ht
      · exact ⟨h.timely r hmem, hnow, namespaceName, name, hat⟩
      · exact h.tasks t ht
    · -- No reconcile of this requirement was under way, so its place is a new one.
      refine List.nodup_cons.2 ⟨fun hplace => ?_, h.apart⟩
      obtain ⟨t, ht, heq⟩ := List.mem_map.1 hplace
      have htAt : t.requirement.metadata.isAt namespaceName name = true := by
        rwa [Metadata.isAt_congr heq]
      exact absurd htAt (by simp [hfree t ht])
  | event htasks _ => exact h.advance htasks hconsistent h.timely rfl rfl rfl
  | measure htasks _ => exact h.advance htasks hconsistent h.timely rfl rfl rfl
  | @call before after t n c next view fate htasks hrest _ _ =>
    obtain rfl := Task.namespaceName_of_call hrest
    obtain ⟨-, -, namespaceName, name, hat⟩ := h.tasks t (mem_tasks htasks)
    have hrevises := h.revises (mem_tasks htasks) hrest hat view fate
    exact h.advance htasks hconsistent (fun r hr => (hrevises.mem h.timely hr).1) rfl rfl rfl
  | @stop before after t htasks =>
    have hsublist := sublist_tasks htasks
    exact ⟨hconsistent, h.timely, fun t' ht' => h.tasks t' (hsublist.subset ht'),
      h.apart.sublist (hsublist.map _)⟩
  | others hothers =>
    refine ⟨hconsistent, ?_, h.tasks, h.apart⟩
    cases hothers with
    | requirements hedits =>
      cases hedits with
      | edit namespaceName name change htouches =>
        intro r' hr'
        obtain ⟨r, hr, rfl⟩ := mem_updateWhere.1 hr'
        split
        · rename_i hat
          exact (htouches r hr hat).1.timely (h.timely r hr)
        · exact h.timely r hr
      | remove hstored hfree => exact fun r' hr' => h.timely r' (List.mem_filter.1 hr').1
    | caches _ => exact h.timely
    | write _ _ _ => exact h.timely
    | make _ _ _ => exact h.timely
    | remove _ _ => exact h.timely
    | version _ => exact h.timely

theorem Regular.reachable {ours : String → Prop} {w' : World} (h : w.Regular)
    (hrun : Reachable (custodial ours) w w') : w'.Regular :=
  hrun.induction_of h fun _ _ hw hstep => hw.step hstep

end World

end WarmPool
