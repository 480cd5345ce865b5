import FlowAnalysis.Proofs.Text.Page

/-!
# Joining the lines of a text

The page of a text has one line end for all its lines, so joining them changes the text where its
lines end in two ways.  `unified` says on the characters what comes out: the text itself when it has
no long line end, and otherwise the text with a carriage return before every line feed
(`Page.toText_ofText`).  Only a text that has both line ends is changed by it (`unified_eq_iff`),
and its lines stay what they are (`Page.lines_unified`).
-/

namespace FlowAnalysis.Text

/-! ### One line end for all lines -/

/-- A text with a carriage return before each line feed; `returned` tells whether
one comes before the text. -/
def withReturns (returned : Bool) : List Char → List Char
  | c :: cs => (if c = '\n' ∧ returned = false then ['\r'] else []) ++
    c :: withReturns (c == '\r') cs
  | [] => []

/-- Whether a line feed stands without a carriage return before it. -/
def hasBare (returned : Bool) : List Char → Bool
  | c :: cs => (c == '\n' && !returned) || hasBare (c == '\r') cs
  | [] => false

/-- The text with one line end for all lines: the long one as soon as it occurs. -/
def unified (s : String) : String :=
  if LineEnd.of s = .crlf then String.ofList (withReturns false s.toList) else s

/-- Some lines of a text have the long line end, others the short one. -/
def Mixed (s : String) : Prop := LineEnd.hasPair s.toList = true ∧ hasBare false s.toList = true

instance (s : String) : Decidable (Mixed s) := inferInstanceAs (Decidable (_ ∧ _))

theorem withReturns_append_cons {cs : List Char} {c : Char} {returned : Bool} (rest : List Char)
    (h : '\n' ∉ cs) (hc : c ≠ '\n') :
    withReturns returned (cs ++ c :: rest) = cs ++ c :: withReturns (c == '\r') rest := by
  induction cs generalizing returned with
  | nil => simp [withReturns, hc]
  | cons d ds ih =>
    obtain ⟨hd, hds⟩ := not_or.1 (mt List.mem_cons.2 h)
    have hd' : d ≠ '\n' := fun he => hd he.symm
    rw [List.cons_append, withReturns, if_neg (fun hand => hd' hand.1), ih hds]
    rfl

/-- A line feed gets a carriage return, and one that it has already does not stay beside it. -/
theorem withReturns_append_feed {cs : List Char} (rest : List Char) (h : '\n' ∉ cs) :
    withReturns false (cs ++ '\n' :: rest) = withoutReturn cs ++
    '\r' :: '\n' :: withReturns false rest := by
  have hfeed : withReturns false ('\n' :: rest) = '\r' :: '\n' :: withReturns false rest := rfl
  -- Only the last character before the line feed matters.
  rcases List.eq_nil_or_concat cs with rfl | ⟨l, c, rfl⟩
  · exact hfeed
  · rw [List.concat_eq_append] at h ⊢
    obtain ⟨hl, hc⟩ : '\n' ∉ l ∧ '\n' ≠ c := by simpa [not_or] using h
    rw [List.append_assoc, List.singleton_append,
      withReturns_append_cons ('\n' :: rest) hl (Ne.symm hc)]
    by_cases hr : c = '\r'
    · rw [hr, withoutReturn_concat]
      rfl
    · have hlast : (l ++ [c]).getLast? ≠ some '\r' := by simpa using hr
      rw [withoutReturn_of_ne hlast, beq_false_of_ne hr, hfeed]
      simp

theorem withReturns_of_not_mem {cs : List Char} (h : '\n' ∉ cs) (returned : Bool) :
    withReturns returned cs = cs := by
  rcases List.eq_nil_or_concat cs with rfl | ⟨l, c, rfl⟩
  · rfl
  · rw [List.concat_eq_append] at h ⊢
    obtain ⟨hl, hc⟩ : '\n' ∉ l ∧ '\n' ≠ c := by simpa [not_or] using h
    rw [withReturns_append_cons [] hl (Ne.symm hc)]
    rfl

/-- Nothing is put in exactly when no line feed is bare. -/
theorem withReturns_eq_self_iff (returned : Bool) (cs : List Char) :
    withReturns returned cs = cs ↔ hasBare returned cs = false := by
  induction cs generalizing returned with
  | nil => simp [withReturns, hasBare]
  | cons c cs ih =>
    rw [withReturns, hasBare]
    by_cases hbare : c = '\n' ∧ returned = false
    · obtain ⟨rfl, rfl⟩ := hbare
      simp
    · have hnot : (c == '\n' && !returned) = false := by
        simpa [Bool.and_eq_false_imp] using hbare
      rw [if_neg hbare, hnot, Bool.false_or, List.nil_append, List.cons_inj_right]
      exact ih (c == '\r')

/-- **Only a text with both line ends is changed.** -/
theorem unified_eq_iff (s : String) : unified s = s ↔ ¬ Mixed s := by
  unfold unified Mixed LineEnd.of
  cases LineEnd.hasPair s.toList with
  | false => simp
  | true =>
    have hself : String.ofList (withReturns false s.toList) = s ↔
        withReturns false s.toList = s.toList := by
      rw [← String.toList_inj, String.toList_ofList]
    simp [hself, withReturns_eq_self_iff]

/-! ### The characters between lines -/

namespace LineEnd

theorem hasPair_cons_eq (c : Char) (cs : List Char) :
    hasPair (c :: cs) = (c == '\r' && cs.head? == some '\n' || hasPair cs) := by
  conv => lhs; unfold hasPair
  split
  · next heq =>
    obtain ⟨rfl, rfl⟩ := List.cons.inj heq
    rfl
  · next hne heq =>
    obtain ⟨rfl, rfl⟩ := List.cons.inj heq
    have hfirst : (c == '\r' && cs.head? == some '\n') = false := by
      rw [Bool.and_eq_false_imp]
      intro hc
      rw [beq_eq_false_iff_ne]
      intro hhead
      obtain ⟨ds, rfl⟩ := List.head?_eq_some_iff.1 hhead
      exact hne ds (eq_of_beq hc) rfl
    rw [hfirst, Bool.false_or]
  · next heq => cases heq

/-- A pair stands at the first line feed or after it. -/
theorem hasPair_append_feed {cs : List Char} (rest : List Char) (h : '\n' ∉ cs) :
    hasPair (cs ++ '\n' :: rest) = (cs.getLast? == some '\r' || hasPair rest) := by
  induction cs with
  | nil => simp [hasPair_cons_eq]
  | cons c cs ih =>
    obtain ⟨-, hcs⟩ := not_or.1 (mt List.mem_cons.2 h)
    rw [List.cons_append, hasPair_cons_eq, ih hcs]
    cases cs with
    | nil => simp
    | cons d ds =>
      have hd : (d == '\n') = false := beq_false_of_ne fun he => hcs (he ▸ List.mem_cons_self)
      simp [hd, List.getLast?_cons_cons]

theorem hasPair_of_not_mem {cs : List Char} (h : '\n' ∉ cs) : hasPair cs = false := by
  induction cs with
  | nil => rfl
  | cons c cs ih =>
    obtain ⟨-, hcs⟩ := not_or.1 (mt List.mem_cons.2 h)
    have hhead : (cs.head? == some '\n') = false := by
      rw [beq_eq_false_iff_ne]
      exact fun hhead => hcs (List.mem_of_head? hhead)
    rw [hasPair_cons_eq, hhead, Bool.and_false, Bool.false_or]
    exact ih hcs

/-- Without a pair in a text there is none at its beginning. -/
theorem hasPair_left_of_append {cs ds : List Char} (h : hasPair (cs ++ ds) = false) :
    hasPair cs = false := by
  induction cs with
  | nil => rfl
  | cons c cs ih =>
    rw [List.cons_append, hasPair_cons_eq, Bool.or_eq_false_iff] at h
    rw [hasPair_cons_eq, ih h.2, Bool.or_false]
    cases cs with
    | nil => simp
    | cons d cs => exact h.1

end LineEnd

/-! ### Joining what was cut -/

section

variable {cs : List Char} {e : LineEnd}

theorem linesFrom_eq_nil_iff : linesFrom [] cs = [] ↔ cs = [] := by
  induction cs using feed_induction with
  | plain cs hcs =>
    rw [linesFrom_of_not_mem hcs]
    cases cs <;> simp
  | feed cs rest hcs _ =>
    rw [linesFrom_append_feed rest hcs]
    simp

/-- A last line that is left open is not empty. -/
theorem getLast?_linesFrom_ne_nil (h : cs.getLast? ≠ some '\n') :
    (linesFrom [] cs).getLast? ≠ some [] := by
  induction cs using feed_induction with
  | plain cs hcs =>
    rw [linesFrom_of_not_mem hcs]
    cases cs <;> simp
  | feed cs rest hcs ih =>
    -- Were nothing behind the line feed, the text would end with it.
    have hrest : rest ≠ [] := by
      rintro rfl
      simp at h
    have hopen : rest.getLast? ≠ some '\n' := by
      obtain ⟨c, cs, rfl⟩ := List.exists_cons_of_ne_nil hrest
      rwa [List.getLast?_append_of_ne_nil _ (by simp), List.getLast?_cons_cons] at h
    obtain ⟨l, ls, hls⟩ := List.exists_cons_of_ne_nil (mt linesFrom_eq_nil_iff.1 hrest)
    have hlast := ih hopen
    rw [hls] at hlast
    rwa [linesFrom_append_feed rest hcs, hls, List.getLast?_cons_cons]

/-- Without a pair only a last line that is left open can end with a carriage return. -/
theorem getLast?_ne_return_of_mem_linesFrom (hpair : LineEnd.hasPair cs = false)
    (hcs : cs.getLast? ≠ some '\r') {l : List Char} (hl : l ∈ linesFrom [] cs) :
    l.getLast? ≠ some '\r' := by
  induction cs using feed_induction with
  | plain cs hfeed =>
    rw [linesFrom_of_not_mem hfeed] at hl
    split at hl
    · cases hl
    · obtain rfl := List.mem_singleton.1 hl
      exact hcs
  | feed cs rest hfeed ih =>
    rw [LineEnd.hasPair_append_feed rest hfeed, Bool.or_eq_false_iff] at hpair
    have hreturn : cs.getLast? ≠ some '\r' := by simpa using hpair.1
    rw [linesFrom_append_feed rest hfeed] at hl
    rcases List.mem_cons.1 hl with rfl | hl
    · rw [List.reverse_nil, List.nil_append, withoutReturn_of_ne hreturn]
      exact hreturn
    · refine ih hpair.2 (fun hlast => hcs ?_) hl
      rw [List.getLast?_append, List.getLast?_cons, hlast]
      rfl

/-- The lines of a text with a line end between every two of them, and one after
the last when it has one. -/
def relaid (e : LineEnd) (cs : List Char) : List Char :=
  layout e.text.toList (cs.getLast? == some '\n') (linesFrom [] cs)

theorem relaid_of_not_mem (h : '\n' ∉ cs) : relaid e cs = cs := by
  have hopen : (cs.getLast? == some '\n') = false := by
    rw [beq_eq_false_iff_ne]
    exact fun hlast => h (List.mem_of_getLast? hlast)
  rw [relaid, hopen, linesFrom_of_not_mem h]
  cases cs <;> simp [layout]

theorem relaid_append_feed (rest : List Char) (h : '\n' ∉ cs) :
    relaid e (cs ++ '\n' :: rest) = withoutReturn cs ++ e.text.toList ++ relaid e rest := by
  rw [relaid, linesFrom_append_feed rest h, layout_cons, following, List.append_assoc,
    List.reverse_nil, List.nil_append]
  -- The line end after the last line feed is there because the text is closed,
  -- any other to part two lines.
  by_cases hrest : rest = []
  · rw [hrest]
    simp [linesFrom, relaid, layout]
  · have hlast : (cs ++ '\n' :: rest).getLast? = rest.getLast? := by
      obtain ⟨c, cs, rfl⟩ := List.exists_cons_of_ne_nil hrest
      rw [List.getLast?_append_of_ne_nil _ (by simp), List.getLast?_cons_cons]
    have hlines : (linesFrom [] rest).isEmpty = false := by
      rw [List.isEmpty_eq_false_iff]
      exact mt linesFrom_eq_nil_iff.1 hrest
    rw [hlast, hlines]
    rfl

/-- Joined by long line ends, a text has a carriage return before every line feed. -/
theorem relaid_crlf (cs : List Char) : relaid .crlf cs = withReturns false cs := by
  induction cs using feed_induction with
  | plain cs hcs => rw [relaid_of_not_mem hcs, withReturns_of_not_mem hcs]
  | feed cs rest hcs ih =>
    rw [relaid_append_feed rest hcs, withReturns_append_feed rest hcs, ih, List.append_assoc]
    rfl

/-- Joined by short line ends, a text that has no others is what it was. -/
theorem relaid_lf (h : LineEnd.hasPair cs = false) : relaid .lf cs = cs := by
  induction cs using feed_induction with
  | plain cs hcs => exact relaid_of_not_mem hcs
  | feed cs rest hcs ih =>
    rw [LineEnd.hasPair_append_feed rest hcs, Bool.or_eq_false_iff] at h
    have hreturn : cs.getLast? ≠ some '\r' := by simpa using h.1
    rw [relaid_append_feed rest hcs, withoutReturn_of_ne hreturn, ih h.2, List.append_assoc]
    rfl

end

/-! ### The page of a text -/

namespace LineEnd

theorem of_eq_lf_iff {s : String} : of s = lf ↔ hasPair s.toList = false := by
  rw [of]
  cases hasPair s.toList <;> simp

end LineEnd

namespace Page

variable (s : String)

theorem toList_toText_ofText : (ofText s).toText.toList = relaid (LineEnd.of s) s.toList := by
  rw [toList_toText, lines_ofText]
  rfl

/-- **Joining the lines of a text gives it one line end for all lines.** -/
theorem toText_ofText : (ofText s).toText = unified s := by
  rw [← String.toList_inj, toList_toText_ofText, unified]
  split
  · next he => rw [he, relaid_crlf, String.toList_ofList]
  · next he =>
    have hlf : LineEnd.of s = .lf := by
      cases h : LineEnd.of s with
      | lf => rfl
      | crlf => exact absurd h he
    rw [hlf, relaid_lf (LineEnd.of_eq_lf_iff.1 hlf)]

theorem toList_unified : (unified s).toList = relaid (LineEnd.of s) s.toList := by
  rw [← toText_ofText, toList_toText_ofText]

/-- Joining lines by short line ends makes no long one. -/
theorem hasPair_relaid (h : LineEnd.of s = .lf) :
    LineEnd.hasPair (relaid (LineEnd.of s) s.toList) = false := by
  have hpair := LineEnd.of_eq_lf_iff.1 h
  rw [h, relaid_lf hpair]
  exact hpair

theorem getLast?_lines_ne (h : (s.toList.getLast? == some '\n') = false) :
    (linesFrom [] s.toList).getLast? ≠ some [] :=
  getLast?_linesFrom_ne_nil (by simpa using h)

/-- Giving a text one line end keeps its lines. -/
theorem lines_unified : Text.lines (unified s) = Text.lines s := by
  have hfrom : linesFrom [] (relaid (LineEnd.of s) s.toList) = linesFrom [] s.toList :=
    linesFrom_layout (fun _ => not_mem_of_mem_linesFrom) (hasPair_relaid s) (getLast?_lines_ne s)
  rw [Text.lines, toList_unified, hfrom]
  rfl

end Page

end FlowAnalysis.Text
