import Mathlib.Data.Prod.Lex
import Mathlib.Data.String.Basic
import Mathlib.Order.BooleanAlgebra.Basic
import WarmPool.Proofs.Move

/-!
# Who comes first in a pool

`Pool.precedes` compares ready times and then names, and so it is the order of a linearly ordered
`Pool.rank` (`Pool.precedes_iff`). What is selected from a pool is preceded by no other candidate
(`Pool.not_precedes_of_select?`), and of two operations with different names one precedes the other
(`Pool.precedes_or_precedes`). So all who look at the same pool select the same operation, and the
operations of a pool go in one order.
-/

namespace WarmPool

namespace Pool

/--
Where an operation stands: those with a ready time first, by that time, and then by name. The others
count as ready at the same time.
-/
def rank (op : Operation) : Bool ×ₗ ℤ ×ₗ ℕ ×ₗ String :=
  let t := op.readyTime?.getD ⟨0, 0⟩
  toLex (op.readyTime?.isNone, toLex (t.seconds, toLex (t.nanos, op.name)))

variable {a b op other : Operation}

theorem precedes_iff : precedes a b = true ↔ rank a < rank b := by
  have htime (s t : Timestamp) : s < t ↔
      s.seconds < t.seconds ∨ s.seconds = t.seconds ∧ s.nanos < t.nanos := .rfl
  have hsame (s t : Timestamp) : s = t ↔ s.seconds = t.seconds ∧ s.nanos = t.nanos := by
    cases s
    cases t
    simp only [Timestamp.mk.injEq]
  unfold rank precedes
  simp only [Prod.Lex.toLex_lt_toLex]
  cases ha : a.readyTime? with
  | none =>
    cases hb : b.readyTime? with
    | none => simp
    | some t => simp
  | some s =>
    cases hb : b.readyTime? with
    | none => simp
    | some t =>
      simp only [Bool.or_eq_true, decide_eq_true_eq, Bool.and_eq_true, Option.getD_some,
        Option.isNone_some, lt_self_iff_false, true_and, false_or, htime, hsame]
      tauto

theorem precedes_eq_false_iff : precedes a b = false ↔ rank b ≤ rank a := by
  rw [← not_lt, ← precedes_iff, Bool.not_eq_true]

/-- Operations with different names do not stand at the same rank. -/
theorem precedes_or_precedes (h : a.name ≠ b.name) :
    precedes a b = true ∨ precedes b a = true := by
  rw [precedes_iff, precedes_iff]
  refine lt_or_gt_of_ne fun heq => h ?_
  exact congrArg (fun x => (ofLex (ofLex (ofLex x).2).2).2) heq

theorem least?_eq_none {operations : List Operation} (h : least? operations = none) :
    operations = [] := by
  cases operations with
  | nil => rfl
  | cons first rest =>
    rw [least?] at h
    split at h
    · split at h
      · cases h
      · cases h
    · cases h

/-- None of a list precedes the least. -/
theorem not_precedes_of_least? {operations : List Operation} (h : least? operations = some op)
    (hmem : other ∈ operations) : precedes other op = false := by
  rw [precedes_eq_false_iff]
  induction operations generalizing op with
  | nil => cases hmem
  | cons first rest ih =>
    rw [least?] at h
    cases hrest : least? rest with
    | none =>
      rw [hrest] at h
      cases h
      rw [least?_eq_none hrest, List.mem_singleton] at hmem
      rw [hmem]
    | some least =>
      rw [hrest] at h
      simp only at h
      by_cases hprecedes : precedes least first = true
      · rw [if_pos hprecedes] at h
        cases h
        rcases List.mem_cons.1 hmem with rfl | hmem
        · exact (precedes_iff.1 hprecedes).le
        · exact ih hrest hmem
      · rw [if_neg hprecedes] at h
        cases h
        rcases List.mem_cons.1 hmem with rfl | hmem
        · exact le_rfl
        · exact (precedes_eq_false_iff.1 (by simpa using hprecedes)).trans (ih hrest hmem)

variable {cache : Cache} {operations : List Operation}

/-- No candidate precedes the one that is selected. -/
theorem not_precedes_of_select? (h : select? cache operations = some op)
    (hmem : other ∈ candidates cache operations) : precedes other op = false :=
  not_precedes_of_least? h hmem

/-- Nothing is selected only where there is no candidate. -/
theorem candidates_of_select?_eq_none (h : select? cache operations = none) :
    candidates cache operations = [] := least?_eq_none h

end Pool

end WarmPool
