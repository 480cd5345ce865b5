/-!
# Names that are left

Several searches follow names and never take a name that already stands on their path.  They end
because the number of names that are left goes down with every name taken.
-/

namespace FlowAnalysis

/-- How many of the names are not on the path. -/
def remaining (names path : List String) : Nat :=
  (names.filter fun n => !path.contains n).length

/-- Paths over the same names leave the same number. -/
theorem remaining_congr (names : List String) {path other : List String}
    (h : ∀ n, n ∈ path ↔ n ∈ other) : remaining names path = remaining names other := by
  unfold remaining
  refine congrArg List.length (List.filter_congr fun n _ => ?_)
  rw [Bool.eq_iff_iff]
  simp [h n]

/-- A longer path leaves no more names. -/
theorem remaining_cons_le (names path : List String) (n : String) :
    remaining names (n :: path) ≤ remaining names path := by
  unfold remaining
  induction names with
  | nil => exact Nat.le_refl _
  | cons m ms ih =>
    rw [List.filter_cons, List.filter_cons, List.contains_cons]
    cases m == n <;> cases path.contains m <;>
      simp only [Bool.or_true, Bool.or_false, Bool.not_true, Bool.not_false,
        Bool.false_eq_true, if_true, if_false, List.length_cons] <;> omega

/-- Taking a name that is there and not on the path leaves fewer names. -/
theorem remaining_cons_lt {names path : List String} {n : String} (h : n ∈ names)
    (hp : ¬ n ∈ path) : remaining names (n :: path) < remaining names path := by
  induction names with
  | nil => cases h
  | cons m ms ih =>
    have le := remaining_cons_le ms path n
    unfold remaining at *
    rw [List.filter_cons, List.filter_cons, List.contains_cons]
    rcases List.mem_cons.1 h with rfl | h
    · have hc : path.contains n = false := by simpa using hp
      rw [beq_self_eq_true, hc]
      simp only [Bool.true_or, Bool.not_true, Bool.not_false, Bool.false_eq_true, if_true, if_false,
        List.length_cons]
      omega
    · have := ih h
      cases m == n <;> cases path.contains m <;>
        simp only [Bool.or_true, Bool.or_false, Bool.not_true, Bool.not_false,
          Bool.false_eq_true, if_true, if_false, List.length_cons] <;> omega

end FlowAnalysis
