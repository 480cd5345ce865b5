import FlowAnalysis.Proofs.Cron.Field

/-!
# Steps

An item with a step stands for an arithmetic progression.  A range runs from its first value to its
last, whatever the step (`item_range_step`).  A single value runs to the end of the field when its
step is above one, and stands for itself alone when it is one (`item_value_step`), as if no step
were written: so `5/1` does not mean what `5/2` would suggest (`step_items_progress_iff`).
-/

namespace FlowAnalysis.CronField

variable {f : CronField}

theorem isMark_of_mem_step {s : String} {k : Nat} (h : Number.bounded? numberBound s = some k) :
    ∀ c ∈ s.toList, isMark c = false :=
  fun c hc => isMark_of_number ((Number.bounded?_spec h).2 c hc)

/-! ### One item -/

/-- A value with a step above one runs to the end of the field. -/
theorem item_value_step (hf : f.Proper) {n s : String} {v k : Nat} (hn : f.value n = .ok v)
    (hs : Number.bounded? numberBound s = some k) (hk : 0 < k) :
    f.item (n ++ "/" ++ s) = .ok ⟨v, if 1 < k then f.greatest else v, k⟩ := by
  obtain ⟨-, hgreatest, hmarks⟩ := value_spec hf hn
  have hslash : splitFirst '/' (n ++ "/" ++ s) = some (n, s) :=
    splitFirst_eq_some (by simp) (not_mem_of_isMark hmarks (by decide))
  have hordered : ¬ (if 1 < k then f.greatest else v) < v := by
    split <;> omega
  rw [item_of_slash hslash, step_eq_ok_iff.2 ⟨hs, hk⟩]
  show f.stepped n k = _
  rw [stepped, range_of_value hmarks hn]
  exact if_neg hordered

/-- A range with a step runs from its first value to its last. -/
theorem item_range_step (hf : f.Proper) {a b s : String} {v w k : Nat} (ha : f.value a = .ok v)
    (hb : f.value b = .ok w) (hvw : v ≤ w) (hs : Number.bounded? numberBound s = some k)
    (hk : 0 < k) : f.item (a ++ "-" ++ b ++ "/" ++ s) = .ok ⟨v, w, k⟩ := by
  obtain ⟨-, -, hamarks⟩ := value_spec hf ha
  obtain ⟨-, -, hbmarks⟩ := value_spec hf hb
  have hnoslash : '/' ∉ (a ++ "-" ++ b).toList := by
    simp [not_mem_of_isMark hamarks, not_mem_of_isMark hbmarks, isMark]
  have hslash : splitFirst '/' (a ++ "-" ++ b ++ "/" ++ s) = some (a ++ "-" ++ b, s) :=
    splitFirst_eq_some (by simp) hnoslash
  have hstar : (a ++ "-" ++ b == "*") = false := by
    refine beq_false_of_ne fun heq => ?_
    have hmem : '-' ∈ (a ++ "-" ++ b).toList := by simp
    rw [heq] at hmem
    exact absurd hmem (by decide)
  have hdash : splitFirst '-' (a ++ "-" ++ b) = some (a, b) :=
    splitFirst_eq_some (by simp) (not_mem_of_isMark hamarks (by decide))
  have hrange : f.range (a ++ "-" ++ b) k = .ok (v, w) := by
    rw [range, hstar, hdash]
    simp only [Bool.false_eq_true, if_false, ha, hb]
    rfl
  rw [item_of_slash hslash, step_eq_ok_iff.2 ⟨hs, hk⟩]
  show f.stepped _ k = _
  rw [stepped, hrange]
  exact if_neg (Nat.not_lt.2 hvw)

/-- A field of one item stands for its progression. -/
theorem parse_of_item (hf : f.Proper) {s : String} (hs : ',' ∉ s.toList) {i : CronItem}
    (hi : f.item s = .ok i) :
    ∃ vs, f.parse s = .ok vs ∧ Enumerates vs (progression i.first i.last i.step) := by
  have hpieces : Text.pieces (· == ',') s.toList = [s.toList] := by
    refine Text.pieces_of_forall fun c hc => beq_false_of_ne ?_
    rintro rfl
    exact hs hc
  have hitems : f.items s = .ok [i] := by
    rw [items, hpieces, List.map_singleton, String.ofList_toList]
    exact mapM_cons_eq_ok_iff.2 ⟨i, [], hi, rfl, rfl⟩
  refine ⟨CronItem.union [i], parse_eq_ok_iff.2 ⟨[i], hitems, rfl⟩, CronItem.pairwise_union [i],
    fun v => ?_⟩
  rw [mem_union_iff (holds_of_items hf hitems)]
  simp only [List.mem_singleton, exists_eq_left]

/-! ### Progressions -/

theorem eq_singleton_of_enumerates {vs : List Nat} {v : Nat}
    (h : Enumerates vs {v}) : vs = [v] := by
  refine h.1.eq_of_mem_iff (List.pairwise_singleton _ v) fun w => ?_
  rw [h.2 w, Set.mem_singleton_iff, List.mem_singleton]

/-- **Items with a step are arithmetic progressions, but for a single value with the step one.**
For each of the five fields, every value that the field accepts and every step of at least one,
the value with the step is accepted; it stands for the progression up to the greatest value of the
field exactly when the step is above one or the value is the greatest already, and with the step
one it stands for the value alone.  A range with a step stands for the progression up to its last
value, whatever the step. -/
theorem step_items_progress_iff (hf : f ∈ all) {s : String} {k : Nat}
    (hs : Number.bounded? numberBound s = some k) (hk : 0 < k) :
    (∀ n v, f.value n = .ok v → ∃ vs, f.parse (n ++ "/" ++ s) = .ok vs ∧
        (Enumerates vs (progression v f.greatest k) ↔ 1 < k ∨ v = f.greatest) ∧
        (k = 1 → vs = [v])) ∧
      ∀ a b v w, f.value a = .ok v → f.value b = .ok w → v ≤ w →
        ∃ vs, f.parse (a ++ "-" ++ b ++ "/" ++ s) = .ok vs ∧ Enumerates vs (progression v w k) := by
  have hproper := proper_of_mem_all hf
  have hscomma : ',' ∉ s.toList := not_mem_of_isMark (isMark_of_mem_step hs) (by decide)
  have hcomma : ∀ {n v}, f.value n = .ok v → ',' ∉ n.toList :=
    fun hn => not_mem_of_isMark (value_spec hproper hn).2.2 (by decide)
  constructor
  · intro n v hn
    have hle : v ≤ f.greatest := (value_spec hproper hn).2.1
    obtain ⟨vs, hvs, henum⟩ :=
      parse_of_item hproper (by simp [hcomma hn, hscomma]) (item_value_step hproper hn hs hk)
    refine ⟨vs, hvs, ?_⟩
    by_cases hone : 1 < k
    · rw [if_pos hone] at henum
      exact ⟨by simp [hone, henum], by omega⟩
    · obtain rfl : k = 1 := by omega
      rw [if_neg hone, progression_one_self] at henum
      have hsingle : vs = [v] := eq_singleton_of_enumerates henum
      refine ⟨⟨fun hall => .inr ?_, ?_⟩, fun _ => hsingle⟩
      · -- The greatest value is one step after another away, so it would have to be there.
        have hmem : f.greatest ∈ vs := (hall.2 _).2 ⟨Nat.le_refl _, f.greatest - v, by omega⟩
        rw [hsingle, List.mem_singleton] at hmem
        exact hmem.symm
      · rintro (hlt | rfl)
        · exact absurd hlt hone
        · rwa [progression_one_self]
  · intro a b v w ha hb hvw
    exact parse_of_item hproper (by simp [hcomma ha, hcomma hb, hscomma])
      (item_range_step hproper ha hb hvw hs hk)

/-- A word with a signed step, and a range with a step that is larger than it. -/
theorem step_items_progress_dayOfWeek :
    Number.bounded? numberBound "+2" = some 2 ∧ dayOfWeek.value "mon" = .ok 1 ∧
      dayOfWeek.value "5" = .ok 5 ∧
      (∃ vs, dayOfWeek.parse "mon/+2" = .ok vs ∧ Enumerates vs (progression 1 7 2)) ∧
      Number.bounded? numberBound "100" = some 100 ∧
      ∃ vs, dayOfWeek.parse "mon-5/100" = .ok vs ∧ Enumerates vs (progression 1 5 100) := by
  have htwo : Number.bounded? numberBound "+2" = some 2 := by decide +kernel
  have hhundred : Number.bounded? numberBound "100" = some 100 := by decide +kernel
  have hmonday : dayOfWeek.value "mon" = .ok 1 := by decide +kernel
  have hfriday : dayOfWeek.value "5" = .ok 5 := by decide +kernel
  obtain ⟨vs, hvs, henum, -⟩ :=
    (step_items_progress_iff (f := dayOfWeek) (by decide) htwo (by decide)).1 "mon" 1 hmonday
  have hrange :=
    (step_items_progress_iff (f := dayOfWeek) (by decide) hhundred (by decide)).2 "mon" "5" 1 5
      hmonday hfriday (by decide)
  exact ⟨htwo, hmonday, hfriday, ⟨vs, hvs, henum.2 (.inl (by decide))⟩, hhundred, hrange⟩

/-- **A value with the step one does not run on**: `5/1` is the minute 5 alone, while `5/2`
runs to the end of the hour. -/
theorem parse_value_step_one :
    minute.value "5" = .ok 5 ∧ Number.bounded? numberBound "1" = some 1 ∧
      minute.parse "5/1" = .ok [5] ∧
      ¬ Enumerates [5] (progression 5 59 1) ∧ minute.parse "53/2" = .ok [53, 55, 57, 59] := by
  refine ⟨by decide +kernel, by decide +kernel, by decide +kernel, fun h => ?_, by decide +kernel⟩
  have hmem : 6 ∈ [5] := (h.2 6).2 ⟨by decide, 1, rfl⟩
  exact absurd hmem (by decide)

end FlowAnalysis.CronField
