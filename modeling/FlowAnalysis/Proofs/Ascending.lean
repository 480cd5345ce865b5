/-!
# Sorted lists without repetitions

In a sorted list equal values stand next to each other, so once repetitions are left out every value
comes once and the list is strictly ascending.
-/

namespace FlowAnalysis

section

variable {α : Type} [BEq α]

theorem eraseRepsBy_loop_eq (a : α) (as rs : List α) :
    List.eraseRepsBy.loop (· == ·) a as rs
      = rs.reverse ++ List.eraseRepsBy.loop (· == ·) a as [] := by
  induction as generalizing a rs with
  | nil => simp [List.eraseRepsBy.loop]
  | cons b bs ih =>
    rw [List.eraseRepsBy.loop, List.eraseRepsBy.loop]
    split
    · exact ih a rs
    · rw [ih b (a :: rs), ih b [a]]
      simp

variable [LawfulBEq α]

/-- A value is left out when the next one is the same. -/
theorem eraseReps_cons_cons (a b : α) (as : List α) :
    (a :: b :: as).eraseReps
      = if a == b then (b :: as).eraseReps else a :: (b :: as).eraseReps := by
  show List.eraseRepsBy.loop (· == ·) a (b :: as) [] = _
  rw [List.eraseRepsBy.loop]
  split
  · next h =>
    rw [if_pos h, eq_of_beq h]
    rfl
  · next h =>
    rw [h, eraseRepsBy_loop_eq]
    rfl

theorem mem_eraseReps {a : α} {as : List α} : a ∈ as.eraseReps ↔ a ∈ as := by
  induction as with
  | nil => rfl
  | cons b bs ih =>
    cases bs with
    | nil => rfl
    | cons c cs =>
      rw [eraseReps_cons_cons]
      split
      · next h =>
        have hbc : b = c := eq_of_beq h
        rw [ih, hbc]
        simp
      · rw [List.mem_cons, ih, ← List.mem_cons]

/-- Without repetitions a sorted list is strictly ascending. -/
theorem pairwise_lt_eraseReps [LE α] [LT α] [Std.IsLinearOrder α] [Std.LawfulOrderLT α]
    {as : List α} (h : as.Pairwise (· ≤ ·)) : as.eraseReps.Pairwise (· < ·) := by
  induction as with
  | nil => exact .nil
  | cons a bs ih =>
    cases bs with
    | nil => exact List.pairwise_singleton _ _
    | cons b cs =>
      obtain ⟨hle, hrest⟩ := List.pairwise_cons.1 h
      rw [eraseReps_cons_cons]
      split
      · exact ih hrest
      · next hab =>
        refine List.pairwise_cons.2 ⟨fun c hc => ?_, ih hrest⟩
        -- The next value is greater, and all others are at least as great as that.
        have hlt : a < b := Std.lt_of_le_of_ne (hle b List.mem_cons_self) (by simpa using hab)
        rcases List.mem_cons.1 (mem_eraseReps.1 hc) with rfl | hc
        · exact hlt
        · exact Std.lt_of_lt_of_le hlt ((List.pairwise_cons.1 hrest).1 c hc)

end

section

variable {α : Type} [BEq α] [LawfulBEq α] [LE α] [DecidableLE α]

theorem mem_eraseReps_mergeSort {a : α} {as : List α} :
    a ∈ (as.mergeSort (· ≤ ·)).eraseReps ↔ a ∈ as := by
  rw [mem_eraseReps, List.mem_mergeSort]

theorem pairwise_lt_eraseReps_mergeSort [LT α] [Std.IsLinearOrder α] [Std.LawfulOrderLT α]
    (as : List α) : ((as.mergeSort (· ≤ ·)).eraseReps).Pairwise (· < ·) := by
  refine pairwise_lt_eraseReps ?_
  have hsorted : (as.mergeSort (· ≤ ·)).Pairwise fun a b => decide (a ≤ b) = true :=
    List.pairwise_mergeSort
      (fun a b c hab hbc => by
        simpa using Std.le_trans (of_decide_eq_true hab) (of_decide_eq_true hbc))
      (fun a b => by simpa using Std.le_total) as
  exact hsorted.imp of_decide_eq_true

end

end FlowAnalysis
