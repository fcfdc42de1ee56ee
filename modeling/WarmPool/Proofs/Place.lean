import Mathlib.Data.List.Nodup
import WarmPool.Cluster

/-!
# Places

An object is found by its place, which is its namespace and its name. Changing the objects of one
place leaves what is found at any other (`find?_updateWhere_of_ne`), so the writes of a cluster to
its requirements are described by what `requirement?` finds before and after.
-/

namespace WarmPool

/-! ### Changing some elements of a list -/

section List

variable {α : Type} {meant p : α → Bool} {change : α → α} {l : List α}

theorem mem_updateWhere {a : α} :
    a ∈ updateWhere meant change l ↔ ∃ b ∈ l, (if meant b then change b else b) = a := List.mem_map

/-- The first meant element after a change that keeps it meant. -/
theorem find?_updateWhere (h : ∀ a ∈ l, meant a = true → meant (change a) = true) :
    (updateWhere meant change l).find? meant = (l.find? meant).map change := by
  induction l with
  | nil => rfl
  | cons a l ih =>
    have hrest := ih fun b hb => h b (List.mem_cons_of_mem _ hb)
    unfold updateWhere at hrest ⊢
    by_cases ha : meant a = true
    · rw [List.map_cons, if_pos ha, List.find?_cons_of_pos (h a (by simp) ha),
        List.find?_cons_of_pos ha]
      rfl
    · rw [List.map_cons, if_neg ha, List.find?_cons_of_neg ha, List.find?_cons_of_neg ha, hrest]

/-- What is looked for besides the meant elements is the same after a change. -/
theorem find?_updateWhere_of_ne
    (h : ∀ a ∈ l, meant a = true → p a = false ∧ p (change a) = false) :
    (updateWhere meant change l).find? p = l.find? p := by
  induction l with
  | nil => rfl
  | cons a l ih =>
    have hrest := ih fun b hb => h b (List.mem_cons_of_mem _ hb)
    unfold updateWhere at hrest ⊢
    by_cases ha : meant a = true
    · obtain ⟨hbefore, hafter⟩ := h a (by simp) ha
      rw [List.map_cons, if_pos ha, List.find?_cons_of_neg (by simp [hafter]),
        List.find?_cons_of_neg (by simp [hbefore]), hrest]
    · rw [List.map_cons, if_neg ha, List.find?_cons, List.find?_cons, hrest]

/-- What is looked for besides the elements removed is the same. -/
theorem find?_filter_of_ne (h : ∀ a ∈ l, meant a = true → p a = false) :
    (l.filter fun a => !meant a).find? p = l.find? p := by
  induction l with
  | nil => rfl
  | cons a l ih =>
    have hrest := ih fun b hb => h b (List.mem_cons_of_mem _ hb)
    by_cases ha : meant a = true
    · rw [List.filter_cons_of_neg (by simp [ha]),
        List.find?_cons_of_neg (by simp [h a (by simp) ha]), hrest]
    · rw [List.filter_cons_of_pos (by simpa using ha), List.find?_cons, List.find?_cons, hrest]

/-- What is looked for is found among the elements kept if it is one of them. -/
theorem find?_filter_of_kept (h : ∀ a, l.find? p = some a → meant a = true) :
    (l.filter meant).find? p = l.find? p := by
  induction l with
  | nil => rfl
  | cons a l ih =>
    by_cases hp : p a = true
    · rw [List.filter_cons_of_pos (h a (List.find?_cons_of_pos hp)), List.find?_cons_of_pos hp,
        List.find?_cons_of_pos hp]
    · rw [List.find?_cons_of_neg hp] at h ⊢
      by_cases ha : meant a = true
      · rw [List.filter_cons_of_pos ha, List.find?_cons_of_neg hp, ih h]
      · rw [List.filter_cons_of_neg ha, ih h]

end List

/-! ### Places -/

namespace Metadata

/-- The namespace and the name, as far as they are stated. -/
def place (m : Metadata) : Option String × Option String := (m.namespaceName, m.name)

variable {m : Metadata} {namespaceName name : String}

theorem isAt_iff :
    m.isAt namespaceName name = true ↔ m.place = (some namespaceName, some name) := by
  unfold isAt place
  rw [Bool.and_eq_true, decide_eq_true_iff, decide_eq_true_iff, Prod.mk.injEq]

/-- An object is at one place only. -/
theorem isAt_of_ne {namespaceName' name' : String} (h : m.isAt namespaceName' name' = true)
    (hne : (namespaceName', name') ≠ (namespaceName, name)) :
    m.isAt namespaceName name = false := by
  rw [Bool.eq_false_iff]
  intro h'
  have hplace := (isAt_iff.1 h).symm.trans (isAt_iff.1 h')
  simp only [Prod.mk.injEq, Option.some.injEq] at hplace
  exact hne (Prod.ext hplace.1 hplace.2)

theorem namespaceName_of_isAt (h : m.isAt namespaceName name = true) :
    m.namespaceName = some namespaceName := congrArg Prod.fst (isAt_iff.1 h)

theorem isSome_namespaceName (h : m.isAt namespaceName name = true) :
    m.namespaceName.isSome := by
  rw [namespaceName_of_isAt h]
  rfl

theorem name_of_isAt (h : m.isAt namespaceName name = true) : m.name = some name :=
  congrArg Prod.snd (isAt_iff.1 h)

theorem anyName_of_isAt (h : m.isAt namespaceName name = true) : m.anyName = name := by
  unfold anyName
  rw [name_of_isAt h]
  rfl

theorem isAt_congr {m' : Metadata} (h : m'.place = m.place) :
    m'.isAt namespaceName name = m.isAt namespaceName name := by
  rw [Bool.eq_iff_iff, isAt_iff, isAt_iff, h]

end Metadata

theorem Requirement.namespaceName_of_some {r : Requirement} {namespaceName : String}
    (h : r.metadata.namespaceName = some namespaceName) : r.namespaceName = namespaceName := by
  unfold Requirement.namespaceName
  rw [h]
  rfl

theorem Requirement.namespaceName_of_isAt {r : Requirement} {namespaceName name : String}
    (h : r.metadata.isAt namespaceName name = true) : r.namespaceName = namespaceName :=
  namespaceName_of_some (Metadata.namespaceName_of_isAt h)

namespace Cluster

variable {c : Cluster} {namespaceName name : String}

/-! ### Requirements found -/

theorem mem_of_requirement? {r : Requirement} (h : c.requirement? namespaceName name = some r) :
    r ∈ c.requirements ∧ r.metadata.isAt namespaceName name = true :=
  ⟨List.mem_of_find?_eq_some h, by simpa using List.find?_some h⟩

/-- What is found at a place once the requirements of that place are changed. -/
theorem requirement?_updateRequirement {change : Requirement → Requirement}
    (h : ∀ r ∈ c.requirements, r.metadata.isAt namespaceName name = true →
      (change r).metadata.isAt namespaceName name = true) :
    (c.updateRequirement namespaceName name change).requirement? namespaceName name =
      (c.requirement? namespaceName name).map change := find?_updateWhere h

theorem requirement?_updateRequirement_of_ne {namespaceName' name' : String}
    {change : Requirement → Requirement}
    (h : ∀ r ∈ c.requirements, r.metadata.isAt namespaceName' name' = true →
      (change r).metadata.isAt namespaceName' name' = true)
    (hne : (namespaceName', name') ≠ (namespaceName, name)) :
    (c.updateRequirement namespaceName' name' change).requirement? namespaceName name =
      c.requirement? namespaceName name :=
  find?_updateWhere_of_ne fun r hr hat =>
    ⟨Metadata.isAt_of_ne hat hne, Metadata.isAt_of_ne (h r hr hat) hne⟩

theorem requirement?_removeRequirement (c : Cluster) (namespaceName name : String) :
    (c.removeRequirement namespaceName name).requirement? namespaceName name = none := by
  unfold requirement? removeRequirement
  rw [List.find?_eq_none]
  intro r hr
  have hat := (List.mem_filter.1 hr).2
  simpa using hat

theorem requirement?_removeRequirement_of_ne {namespaceName' name' : String}
    (hne : (namespaceName', name') ≠ (namespaceName, name)) :
    (c.removeRequirement namespaceName' name').requirement? namespaceName name =
      c.requirement? namespaceName name :=
  find?_filter_of_ne fun _ _ hat => Metadata.isAt_of_ne hat hne

/-! ### Operations found -/

theorem mem_of_operation? {op : Operation} (h : c.operation? namespaceName name = some op) :
    op ∈ c.operations ∧ op.metadata.isAt namespaceName name = true :=
  ⟨List.mem_of_find?_eq_some h, by simpa using List.find?_some h⟩

theorem operation?_updateOperation {change : Operation → Operation}
    (h : ∀ op ∈ c.operations, op.metadata.isAt namespaceName name = true →
      (change op).metadata.isAt namespaceName name = true) :
    (c.updateOperation namespaceName name change).operation? namespaceName name =
      (c.operation? namespaceName name).map change := find?_updateWhere h

theorem operation?_eq_none :
    c.operation? namespaceName name = none ↔
      ∀ op ∈ c.operations, op.metadata.isAt namespaceName name = false := by
  unfold operation?
  rw [List.find?_eq_none]
  simp

end Cluster

end WarmPool
