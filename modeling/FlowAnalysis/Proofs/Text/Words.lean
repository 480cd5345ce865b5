import FlowAnalysis.Text.Blank
import Mathlib.Data.List.Basic

/-!
# Pieces and words of a text

A text is cut at the characters of a class as the library cuts a list (`pieces_eq_splitOnP`), so
cutting undoes joining when no piece has a separator in it.  For words this needs in addition that
none is empty (`words_intercalate`).
-/

namespace FlowAnalysis.Text

theorem isBlank_of_digit {c : Char} (h : '0' ≤ c ∧ c ≤ '9') : isBlank c = false := by
  have hlow : 48 ≤ c.toNat := h.1
  have hhigh : c.toNat ≤ 57 := h.2
  simp only [isBlank, Bool.or_eq_false_iff, Bool.and_eq_false_iff, decide_eq_false_iff_not,
    beq_eq_false_iff_ne]
  omega

theorem pieces_eq_splitOnP (p : Char → Bool) (cs : List Char) : pieces p cs = cs.splitOnP p := by
  induction cs with
  | nil => simp [pieces]
  | cons c cs ih =>
    rw [pieces, List.splitOnP_cons_eq_if_modifyHead, ih]
    split
    · rfl
    · cases hs : cs.splitOnP p with
      | nil => exact absurd hs (List.splitOnP_ne_nil p cs)
      | cons w ws => rfl

theorem pieces_ne_nil (p : Char → Bool) (cs : List Char) : pieces p cs ≠ [] := by
  rw [pieces_eq_splitOnP]
  exact List.splitOnP_ne_nil p cs

/-- A separator cuts a text in two, wherever else it is cut. -/
theorem pieces_append_cons {p : Char → Bool} {c : Char} (hc : p c = true) (as bs : List Char) :
    pieces p (as ++ c :: bs) = pieces p as ++ pieces p bs := by
  simp only [pieces_eq_splitOnP]
  exact List.splitOnP_append_cons as bs hc

theorem pieces_of_forall {p : Char → Bool} {cs : List Char} (h : ∀ c ∈ cs, p c = false) :
    pieces p cs = [cs] := by
  rw [pieces_eq_splitOnP]
  exact List.splitOnP_eq_singleton h

/-- Cutting undoes joining. -/
theorem pieces_intercalate {p : Char → Bool} {c : Char} (hc : p c = true) {ws : List (List Char)}
    (hws : ws ≠ []) (h : ∀ w ∈ ws, ∀ d ∈ w, p d = false) : pieces p ([c].intercalate ws) = ws := by
  induction ws with
  | nil => exact absurd rfl hws
  | cons w ws ih =>
    have hw : pieces p w = [w] := pieces_of_forall (h w List.mem_cons_self)
    cases ws with
    | nil => rw [List.intercalate_singleton, hw]
    | cons v vs =>
      have hrest : pieces p ([c].intercalate (v :: vs)) = v :: vs :=
        ih (List.cons_ne_nil v vs) fun u hu => h u (List.mem_cons_of_mem w hu)
      rw [List.intercalate_cons_cons, List.append_assoc, List.singleton_append,
        pieces_append_cons hc, hw, hrest, List.singleton_append]

/-- The words of words between single blanks. -/
theorem words_intercalate {ws : List String} (hne : ∀ w ∈ ws, w ≠ "")
    (hblank : ∀ w ∈ ws, ∀ c ∈ w.toList, isBlank c = false) : words (" ".intercalate ws) = ws := by
  cases ws with
  | nil => decide
  | cons v vs =>
    have hpieces : pieces isBlank (" ".intercalate (v :: vs)).toList =
        (v :: vs).map String.toList := by
      rw [String.toList_intercalate]
      refine pieces_intercalate (by decide) (by simp) fun w hw => ?_
      obtain ⟨u, hu, rfl⟩ := List.mem_map.1 hw
      exact hblank u hu
    have hfull : ((v :: vs).map String.toList).filter (fun w => !w.isEmpty) =
        (v :: vs).map String.toList := by
      refine List.filter_eq_self.2 fun w hw => ?_
      obtain ⟨u, hu, rfl⟩ := List.mem_map.1 hw
      simpa using hne u hu
    rw [words, hpieces, hfull, List.map_map]
    simp

/-- There is nothing to trim when the first and the last character are no blanks. -/
theorem trim_eq_self {s : String} (hfirst : ∀ c ∈ s.toList.head?, isBlank c = false)
    (hlast : ∀ c ∈ s.toList.getLast?, isBlank c = false) : trim s = s := by
  have hstay : ∀ cs : List Char, (∀ c ∈ cs.head?, isBlank c = false) →
      cs.dropWhile isBlank = cs := by
    intro cs hcs
    cases cs with
    | nil => rfl
    | cons c cs => rw [List.dropWhile_cons_of_neg (by simp [hcs c rfl])]
  have hstart : dropStart isBlank s = s := by rw [dropStart, hstay _ hfirst, String.ofList_toList]
  have hend : s.toList.reverse.dropWhile isBlank = s.toList.reverse := by
    refine hstay _ fun c hc => hlast c ?_
    rwa [List.head?_reverse] at hc
  rw [trim, hstart, dropEnd, hend, List.reverse_reverse, String.ofList_toList]

end FlowAnalysis.Text
