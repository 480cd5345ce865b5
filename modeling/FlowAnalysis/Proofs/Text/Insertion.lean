import FlowAnalysis.Proofs.Text.Joining

/-!
# Putting lines into a page

A page that is `Proper` is told from its text: cutting the text gives its lines back
(`Proper.lines_toText`), and the text ends with a line feed when the page is closed
(`Proper.getLast?_toText`).  The page of a text is proper unless a carriage return is left at its
end (`proper_ofText`), and lines that are lines can be put in anywhere (`Proper.withLines`).

Whatever is put in, the text before and after it is that of the page (`exists_split_withLines`).
-/

namespace FlowAnalysis.Text

/-! ### Layouts of two groups of lines -/

section

variable (ending : List Char) (closed : Bool) {xs zs : List (List Char)}

@[simp] theorem layout_nil : layout ending closed [] = [] := by
  simp [layout]

theorem following_true (zs : List (List Char)) :
    following ending true zs = ending ++ layout ending true zs := by
  cases zs <;> simp [following, layout]

theorem layout_true (xs : List (List Char)) : layout ending true xs = xs.flatMap (· ++ ending) := by
  induction xs with
  | nil => rfl
  | cons x xs ih => rw [layout_cons, following_true, ih, List.flatMap_cons, List.append_assoc]

/-- Lines that others come after are closed. -/
theorem layout_append_of_ne_nil (hzs : zs ≠ []) :
    layout ending closed (xs ++ zs) = layout ending true xs ++ layout ending closed zs := by
  obtain ⟨z, zs, rfl⟩ := List.exists_cons_of_ne_nil hzs
  rw [layout_append_cons, layout_cons, layout_true, List.append_assoc]

theorem layout_true_append (xs zs : List (List Char)) :
    layout ending true (xs ++ zs) = layout ending true xs ++ layout ending true zs := by
  simp [layout_true]

theorem following_false (zs : List (List Char)) :
    following ending false zs = zs.flatMap (ending ++ ·) := by
  induction zs with
  | nil => rfl
  | cons z zs ih =>
    rw [following, if_neg (by simp), layout_cons, ih, List.flatMap_cons, List.append_assoc]

/-- Behind a last line that is left open, each line comes after a line end. -/
theorem layout_append_of_open (hxs : xs ≠ []) :
    layout ending false (xs ++ zs) = layout ending false xs ++ zs.flatMap (ending ++ ·) := by
  induction xs with
  | nil => exact absurd rfl hxs
  | cons x xs ih =>
    rw [List.cons_append, layout_cons, layout_cons]
    cases xs with
    | nil => simp [following_false]
    | cons y ys =>
      have hnext := ih (by simp)
      rw [List.cons_append] at hnext
      rw [List.cons_append, following, following, if_neg (by simp), if_neg (by simp), hnext]
      simp

end

/-- Cutting the texts of two groups of lines, of which the second comes last. -/
theorem linesFrom_layout_append {e : LineEnd} {closed : Bool} {xs zs : List (List Char)}
    (hzs : zs ≠ []) (hfeed : ∀ l ∈ xs ++ zs, '\n' ∉ l)
    (hpair : e = .lf → LineEnd.hasPair (layout e.text.toList closed (xs ++ zs)) = false)
    (hlast : closed = false → (xs ++ zs).getLast? ≠ some []) :
    linesFrom [] (layout e.text.toList true xs) = xs ∧
    linesFrom [] (layout e.text.toList closed zs) = zs := by
  rw [layout_append_of_ne_nil _ _ hzs] at hpair
  refine ⟨linesFrom_layout ?_ ?_ ?_, linesFrom_layout ?_ ?_ ?_⟩
  · exact fun l hl => hfeed l (List.mem_append_left _ hl)
  · exact fun he => LineEnd.hasPair_left_of_append (hpair he)
  · intro h
    cases h
  · exact fun l hl => hfeed l (List.mem_append_right _ hl)
  · exact fun he => LineEnd.hasPair_of_append (hpair he)
  · intro hc
    rw [← List.getLast?_append_of_ne_nil xs hzs]
    exact hlast hc

namespace Page

/-! ### Pages that are told from their texts -/

/-- A page that its text tells: lines have no line feed in them, none is empty and open, none ends
with a carriage return that would join a short line end, and only a page with lines is closed. -/
structure Proper (p : Page) : Prop where
  feed : ∀ l ∈ p.lines, '\n' ∉ l.toList
  ends : p.ending = .lf → ∀ l ∈ p.lines, l.toList.getLast? ≠ some '\r'
  last : p.closed = false → p.lines.getLast? ≠ some ""
  some_line : p.closed = true → p.lines ≠ []

/-- Short line ends after lines without a carriage return at their ends make no pair. -/
theorem hasPair_layout {closed : Bool} {ls : List (List Char)} (hfeed : ∀ l ∈ ls, '\n' ∉ l)
    (hends : ∀ l ∈ ls, l.getLast? ≠ some '\r') :
    LineEnd.hasPair (layout ['\n'] closed ls) = false := by
  induction ls with
  | nil => rw [layout_nil, LineEnd.hasPair]
  | cons l ls ih =>
    obtain ⟨hl, hls⟩ := List.forall_mem_cons.1 hfeed
    obtain ⟨hend, hends⟩ := List.forall_mem_cons.1 hends
    have hrest := ih hls hends
    -- A line feed after the line makes no pair, and without one there is nothing to pair.
    have hnext : LineEnd.hasPair (l ++ '\n' :: layout ['\n'] closed ls) = false := by
      rw [LineEnd.hasPair_append_feed _ hl, hrest, Bool.or_false]
      exact beq_false_of_ne hend
    rw [layout_cons, following]
    split
    · next hnil =>
      rw [List.isEmpty_iff.1 hnil, layout_nil] at hnext
      split
      · exact hnext
      · rw [List.append_nil]
        exact LineEnd.hasPair_of_not_mem hl
    · exact hnext

theorem getLast?_map_toList_ne {ls : List String} (h : ls.getLast? ≠ some "") :
    (ls.map String.toList).getLast? ≠ some [] := by
  rw [List.getLast?_map]
  intro hnil
  obtain ⟨l, hl, hempty⟩ := Option.map_eq_some_iff.1 hnil
  rw [String.toList_eq_nil_iff.1 hempty] at hl
  exact h hl

namespace Proper

variable {p : Page} (h : p.Proper)
include h

theorem linesFrom_toText : linesFrom [] p.toText.toList = p.lines.map String.toList := by
  rw [toList_toText]
  refine linesFrom_layout ?_ ?_ ?_
  · exact List.forall_mem_map.2 h.feed
  · intro he
    rw [he]
    exact hasPair_layout (List.forall_mem_map.2 h.feed) (List.forall_mem_map.2 (h.ends he))
  · exact fun hc => getLast?_map_toList_ne (h.last hc)

/-- **Cutting the text of a page gives its lines back.** -/
theorem lines_toText : Text.lines p.toText = p.lines := by
  rw [Text.lines, h.linesFrom_toText, List.map_map]
  simp [Function.comp_def]

/-- The text of a page ends with a line feed exactly when the page is closed. -/
theorem getLast?_toText : p.toText.toList.getLast? = some '\n' ↔ p.closed = true := by
  cases hc : p.closed with
  | true =>
    have hne : p.lines.isEmpty = false := List.isEmpty_eq_false_iff.2 (h.some_line hc)
    have htext : p.toText.toList = (p.ending.text.intercalate p.lines).toList ++
        p.ending.text.toList := by
      rw [toText, hc, hne]
      simp
    rw [htext, List.getLast?_append_of_ne_nil _ p.ending.text_ne_nil, p.ending.getLast?_text]
    simp
  | false =>
    refine iff_of_false (fun hlast => ?_) (by simp)
    -- A line feed at the end would close one more line than the page has.
    have hne : p.toText.toList ≠ [] := by
      intro hnil
      rw [hnil] at hlast
      cases hlast
    have hlines : p.lines.map String.toList ≠ [] := by
      rw [← h.linesFrom_toText]
      exact mt linesFrom_eq_nil_iff.1 hne
    have hlength := length_linesFrom p.toText.toList
    have hcount := count_layout p.ending false hlines
    have hflat : (p.lines.map String.toList).flatten.count '\n' = 0 := by
      rw [List.count_eq_zero]
      intro hm
      obtain ⟨l, hl, hmem⟩ := List.mem_flatten.1 hm
      obtain ⟨line, hline, rfl⟩ := List.mem_map.1 hl
      exact h.feed line hline hmem
    rw [h.linesFrom_toText, hlast, toList_toText, hc] at hlength
    simp only [List.length_map, BEq.rfl, Bool.or_true, ↓reduceIte, Nat.add_zero] at hlength
    simp only [List.length_map, Bool.false_eq_true, ↓reduceIte] at hcount
    omega

end Proper

/-- The page of a text that leaves no carriage return at its end. -/
theorem proper_ofText {s : String} (h : s.toList.getLast? ≠ some '\r') : (ofText s).Proper where
  feed := fun _ hl => not_mem_of_mem_lines hl
  ends := by
    intro he l hl
    refine getLast?_ne_return_of_mem_linesFrom (LineEnd.of_eq_lf_iff.1 he) h ?_
    rw [← lines_ofText]
    exact List.mem_map_of_mem hl
  last := by
    intro hopen hlast
    have hnot : s.toList.getLast? ≠ some '\n' := by simpa [ofText] using hopen
    refine getLast?_linesFrom_ne_nil hnot ?_
    rw [← lines_ofText, List.getLast?_map, hlast]
    rfl
  some_line := by
    intro hclosed hnil
    have hfeed : s.toList.getLast? = some '\n' := by simpa [ofText] using hclosed
    have hempty : linesFrom [] s.toList = [] := by rw [← lines_ofText, hnil, List.map_nil]
    rw [linesFrom_eq_nil_iff.1 hempty] at hfeed
    cases hfeed

/-! ### Lines put in -/

/-- The page with lines put in behind some of its first ones. -/
def withLines (p : Page) (i : Nat) (new : List String) : Page :=
  { p with lines := p.lines.take i ++ new ++ p.lines.drop i }

/-- The last of some lines after others have been put in is an old or a new one. -/
theorem mem_of_getLast?_withLines {ls new : List String} {i : Nat} {l : String}
    (h : (ls.take i ++ new ++ ls.drop i).getLast? = some l) : ls.getLast? = some l ∨ l ∈ new := by
  have hls : ls.getLast? = (ls.drop i).getLast?.or (ls.take i).getLast? := by
    rw [← List.getLast?_append, List.take_append_drop]
  rw [List.getLast?_append, List.getLast?_append, Option.or_eq_some_iff, Option.or_eq_some_iff] at h
  rw [hls, Option.or_eq_some_iff]
  rcases h with hdrop | ⟨hdrop, hnew | ⟨-, htake⟩⟩
  · exact .inl (.inl hdrop)
  · exact .inr (List.mem_of_getLast? hnew)
  · exact .inl (.inr ⟨hdrop, htake⟩)

/-- Lines can be put into a page that its text tells. -/
theorem Proper.withLines {p : Page} (h : p.Proper) (i : Nat) {new : List String}
    (hnew : ∀ l ∈ new, l ≠ "" ∧ '\n' ∉ l.toList ∧ l.toList.getLast? ≠ some '\r') :
    (p.withLines i new).Proper := by
  have hmem : ∀ l ∈ (p.withLines i new).lines, l ∈ p.lines ∨ l ∈ new := by
    intro l hl
    rcases List.mem_append.1 hl with hl | hl
    · rcases List.mem_append.1 hl with hl | hl
      · exact .inl (List.mem_of_mem_take hl)
      · exact .inr hl
    · exact .inl (List.mem_of_mem_drop hl)
  refine ⟨?_, ?_, ?_, ?_⟩
  · intro l hl
    rcases hmem l hl with hl | hl
    · exact h.feed l hl
    · exact (hnew l hl).2.1
  · intro he l hl
    rcases hmem l hl with hl | hl
    · exact h.ends he l hl
    · exact (hnew l hl).2.2
  · intro hopen hlast
    rcases mem_of_getLast?_withLines hlast with hlast | hl
    · exact h.last hopen hlast
    · exact (hnew "" hl).1 rfl
  · intro hclosed hnil
    have hnone := List.append_eq_nil_iff.1 (show _ ++ _ = [] from hnil)
    have hall : p.lines.take i ++ p.lines.drop i = [] := by
      rw [hnone.2, (List.append_eq_nil_iff.1 hnone.1).1]
      rfl
    rw [List.take_append_drop] at hall
    exact h.some_line hclosed hall

end Page

/-- Lines as they are put into a text behind some of its first lines: with a line end
after each of them, but before each of them behind a last line that is left open, and only
between them in an empty text. -/
def block (s : String) (i : Nat) (new : List String) : String :=
  if i < (lines s).length ∨ s.toList.getLast? = some '\n' then
    String.join (new.map (· ++ (LineEnd.of s).text))
  else if s = "" then (LineEnd.of s).text.intercalate new
  else String.join (new.map ((LineEnd.of s).text ++ ·))

namespace Page

theorem toList_join_map_append (new : List String) (e : String) :
    (String.join (new.map (· ++ e))).toList = layout e.toList true (new.map String.toList) := by
  rw [String.toList_join, layout_true, List.flatMap_map, List.flatMap_map]
  simp

theorem toList_join_map_prepend (new : List String) (e : String) :
    (String.join (new.map (e ++ ·))).toList = (new.map String.toList).flatMap (e.toList ++ ·) := by
  rw [String.toList_join, List.flatMap_map, List.flatMap_map]
  simp

theorem toList_toText_withLines (s : String) (i : Nat) (new : List String) :
    ((ofText s).withLines i new).toText.toList
      = layout (LineEnd.of s).text.toList (s.toList.getLast? == some '\n')
          ((linesFrom [] s.toList).take i ++ new.map String.toList ++
            (linesFrom [] s.toList).drop i) := by
  rw [toList_toText, ← lines_ofText, ← List.map_take, ← List.map_drop, ← List.map_append,
    ← List.map_append]
  rfl

section

variable (s : String)

theorem upTo_ofText (i : Nat) :
    (ofText s).upTo i = layout (LineEnd.of s).text.toList true
    ((linesFrom [] s.toList).take i) := by
  rw [layout_true, upTo, ← lines_ofText, List.map_take]
  rfl

theorem drop_linesFrom_ne_nil {i : Nat} (hi : i < (Text.lines s).length) :
    (linesFrom [] s.toList).drop i ≠ [] := by
  have hlength : (linesFrom [] s.toList).length = (Text.lines s).length := (List.length_map _).symm
  rw [Ne, List.drop_eq_nil_iff]
  omega

/-- Cutting what comes before a line, and what comes from the line on. -/
theorem linesFrom_parts {i : Nat} (hi : i < (Text.lines s).length) :
    linesFrom [] ((ofText s).upTo i) = (linesFrom [] s.toList).take i ∧
      linesFrom [] (layout (LineEnd.of s).text.toList (s.toList.getLast? == some '\n')
        ((linesFrom [] s.toList).drop i)) = (linesFrom [] s.toList).drop i := by
  have hsplit := List.take_append_drop i (linesFrom [] s.toList)
  -- Together the two parts are the joined text, of which all that is needed is known.
  rw [upTo_ofText]
  refine linesFrom_layout_append (drop_linesFrom_ne_nil s hi) ?_ ?_ ?_ <;> rw [hsplit]
  · exact fun _ => not_mem_of_mem_linesFrom
  · exact hasPair_relaid s
  · exact getLast?_lines_ne s

theorem lines_upTo {i : Nat} (hi : i < (Text.lines s).length) :
    Text.lines (String.ofList ((ofText s).upTo i)) = (Text.lines s).take i := by
  rw [Text.lines, String.toList_ofList, (linesFrom_parts s hi).1, Text.lines, List.map_take]

/-- Lines put in before the last line of a text. -/
theorem exists_split_of_lt {i : Nat} (hi : i < (Text.lines s).length) (new : List String) :
    ∃ before after, unified s = before ++ after ∧ Text.lines before = (Text.lines s).take i ∧
      Text.lines after = (Text.lines s).drop i ∧
      ((ofText s).withLines i new).toText = before ++ block s i new ++ after := by
  have hrest := drop_linesFrom_ne_nil s hi
  have hblock : block s i new = String.join (new.map (· ++ (LineEnd.of s).text)) := if_pos (.inl hi)
  refine ⟨String.ofList ((ofText s).upTo i),
    String.ofList (layout (LineEnd.of s).text.toList (s.toList.getLast? == some '\n')
      ((linesFrom [] s.toList).drop i)), ?_, lines_upTo s hi, ?_, ?_⟩
  · rw [← String.toList_inj, String.toList_append, String.toList_ofList, String.toList_ofList,
      upTo_ofText, ← layout_append_of_ne_nil _ _ hrest, List.take_append_drop, toList_unified]
    rfl
  · rw [Text.lines, String.toList_ofList, (linesFrom_parts s hi).2, Text.lines, List.map_drop]
  · rw [← String.toList_inj, toList_toText_withLines, layout_append_of_ne_nil _ _ hrest,
      layout_true_append,
      hblock, String.toList_append, String.toList_append, String.toList_ofList,
      String.toList_ofList, upTo_ofText, toList_join_map_append]

/-- Lines put in behind the last line of a text. -/
theorem toText_withLines_length (new : List String) :
    ((ofText s).withLines (Text.lines s).length new).toText
      = unified s ++ block s (Text.lines s).length new := by
  have hlength : (Text.lines s).length = (linesFrom [] s.toList).length := List.length_map _
  rw [← String.toList_inj, toList_toText_withLines, String.toList_append, toList_unified, relaid,
    block, hlength, List.take_length, List.drop_length, List.append_nil]
  -- A closed last line, no line at all and an open last line are the three cases of `block`.
  cases hc : s.toList.getLast? == some '\n' with
  | true => rw [if_pos (.inr (eq_of_beq hc)), layout_true_append, toList_join_map_append]
  | false =>
    rw [if_neg (not_or.2 ⟨Nat.lt_irrefl _, ne_of_beq_false hc⟩)]
    split
    · next hempty =>
      subst hempty
      simp [linesFrom, layout, String.toList_intercalate]
    · next hne =>
      have hlines : linesFrom [] s.toList ≠ [] := by
        rw [Ne, linesFrom_eq_nil_iff, String.toList_eq_nil_iff]
        exact hne
      rw [layout_append_of_open _ hlines, toList_join_map_prepend]

/-- **What is put in leaves the text before and after it.** -/
theorem exists_split_withLines {i : Nat} (hi : i ≤ (Text.lines s).length) (new : List String) :
    ∃ before after, unified s = before ++ after ∧ Text.lines before = (Text.lines s).take i ∧
      Text.lines after = (Text.lines s).drop i ∧
      ((ofText s).withLines i new).toText = before ++ block s i new ++ after := by
  rcases Nat.lt_or_eq_of_le hi with hlt | rfl
  · exact exists_split_of_lt s hlt new
  · refine ⟨unified s, "", by simp, by rw [lines_unified, List.take_length], ?_, ?_⟩
    · rw [List.drop_length]
      rfl
    · rw [toText_withLines_length, String.append_empty]

end

end Page

end FlowAnalysis.Text
