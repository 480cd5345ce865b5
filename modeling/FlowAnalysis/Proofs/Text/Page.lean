import FlowAnalysis.Text.Lines
import Mathlib.Data.List.Basic

/-!
# Texts and pages

A text is cut into lines at its line feeds, and the text of a page is its lines with line ends
between them (`layout`).  Cutting the text of a page gives its lines back when no line has a line
feed in it, no short line end follows a carriage return, and no empty line is left open at the end
(`linesFrom_layout`).  The number of line feeds tells the number of lines (`length_linesFrom`), so
of all pages that make a text and end as it does, only its own has as many lines
(`Page.eq_ofText_of_toText`).
-/

namespace FlowAnalysis.Text

/-! ### Cutting into lines -/

theorem linesFrom_of_not_mem {current cs : List Char} (h : '\n' ∉ cs) :
    linesFrom current cs =
      if (current.reverse ++ cs).isEmpty then [] else [current.reverse ++ cs] := by
  induction cs generalizing current with
  | nil => simp [linesFrom]
  | cons c cs ih =>
    obtain ⟨hc, hcs⟩ := not_or.1 (mt List.mem_cons.2 h)
    rw [linesFrom.eq_3 _ _ _ fun he => hc he.symm, ih hcs]
    simp

/-- A first line that a line feed ends. -/
theorem linesFrom_append_feed {current cs : List Char} (rest : List Char) (h : '\n' ∉ cs) :
    linesFrom current (cs ++ '\n' :: rest) = withoutReturn (current.reverse ++ cs) ::
    linesFrom [] rest := by
  induction cs generalizing current with
  | nil => rw [List.nil_append, linesFrom, List.append_nil]
  | cons c cs ih =>
    obtain ⟨hc, hcs⟩ := not_or.1 (mt List.mem_cons.2 h)
    rw [List.cons_append, linesFrom.eq_3 _ _ _ fun he => hc he.symm, ih hcs]
    simp

/-- A text has no line feed in it, or it goes on after a first one. -/
theorem feed_induction {motive : List Char → Prop} (plain : ∀ cs, '\n' ∉ cs → motive cs)
    (feed : ∀ cs rest, '\n' ∉ cs → motive rest → motive (cs ++ '\n' :: rest))
    (cs : List Char) : motive cs := by
  induction hn : cs.length using Nat.strongRecOn generalizing cs with
  | ind n ih =>
    by_cases h : '\n' ∈ cs
    · obtain ⟨as, bs, rfl, has⟩ := List.eq_append_cons_of_mem h
      have hlt : bs.length < n := by
        rw [← hn, List.length_append, List.length_cons]
        omega
      exact feed as bs has (ih bs.length hlt bs rfl)
    · exact plain cs h

theorem withoutReturn_subset (l : List Char) : withoutReturn l ⊆ l := by
  unfold withoutReturn
  split
  · exact List.dropLast_subset l
  · exact List.Subset.refl l

theorem withoutReturn_concat (l : List Char) : withoutReturn (l ++ ['\r']) = l := by
  simp [withoutReturn]

theorem withoutReturn_of_ne {l : List Char} (h : l.getLast? ≠ some '\r') : withoutReturn l = l := by
  unfold withoutReturn
  split
  · next hl => exact absurd hl h
  · rfl

/-- No line has a line feed in it. -/
theorem not_mem_of_mem_linesFrom {cs l : List Char} (h : l ∈ linesFrom [] cs) : '\n' ∉ l := by
  induction cs using feed_induction with
  | plain cs hcs =>
    rw [linesFrom_of_not_mem hcs] at h
    split at h
    · cases h
    · obtain rfl := List.mem_singleton.1 h
      exact hcs
  | feed cs rest hcs ih =>
    rw [linesFrom_append_feed rest hcs] at h
    rcases List.mem_cons.1 h with rfl | h
    · exact fun hm => hcs (withoutReturn_subset _ hm)
    · exact ih h

/-- There are as many lines as line feeds, and one more when the last line is left open. -/
theorem length_linesFrom (cs : List Char) :
    (linesFrom [] cs).length
      = cs.count '\n' + if cs.isEmpty || cs.getLast? == some '\n' then 0 else 1 := by
  induction cs using feed_induction with
  | plain cs hcs =>
    have hlast : (cs.getLast? == some '\n') = false := by
      rw [beq_eq_false_iff_ne]
      exact fun hl => hcs (List.mem_of_getLast? hl)
    rw [linesFrom_of_not_mem hcs, List.count_eq_zero_of_not_mem hcs, hlast]
    cases cs <;> simp
  | feed cs rest hcs ih =>
    rw [linesFrom_append_feed rest hcs, List.length_cons, ih, List.count_append,
      List.count_eq_zero_of_not_mem hcs, List.count_cons_self]
    cases rest with
    | nil => simp
    | cons c rest =>
      rw [List.getLast?_append_of_ne_nil _ (by simp), List.getLast?_cons_cons]
      simp
      omega

/-! ### Laying out lines -/

namespace LineEnd

theorem hasPair_cons {c : Char} {cs : List Char} (h : hasPair cs = true) :
    hasPair (c :: cs) = true := by
  unfold hasPair
  split <;> simp_all

theorem hasPair_append {cs : List Char} (ds : List Char) (h : hasPair cs = true) :
    hasPair (ds ++ cs) = true := by
  induction ds with
  | nil => exact h
  | cons d ds ih => exact hasPair_cons ih

/-- Without a pair in a text there is none at its end. -/
theorem hasPair_of_append {cs ds : List Char} (h : hasPair (ds ++ cs) = false) :
    hasPair cs = false := by
  by_contra hne
  rw [hasPair_append ds (by simpa using hne)] at h
  cases h

theorem count_text (e : LineEnd) : e.text.toList.count '\n' = 1 := by
  cases e <;> decide

theorem getLast?_text (e : LineEnd) : e.text.toList.getLast? = some '\n' := by
  cases e <;> decide

theorem text_ne_nil (e : LineEnd) : e.text.toList ≠ [] := by
  cases e <;> decide

end LineEnd

/-- Lines as one text: a line end between every two of them, and one after
the last when it is closed. -/
def layout (ending : List Char) (closed : Bool) (lines : List (List Char)) : List Char :=
  ending.intercalate lines ++ if closed && !lines.isEmpty then ending else []

/-- What comes after a line: a line end and the lines after it, if there are any. -/
def following (ending : List Char) (closed : Bool) (lines : List (List Char)) : List Char :=
  if lines.isEmpty then (if closed then ending else []) else ending ++ layout ending closed lines

theorem layout_cons (ending : List Char) (closed : Bool) (l : List Char) (ls : List (List Char)) :
    layout ending closed (l :: ls) = l ++ following ending closed ls := by
  cases ls with
  | nil => simp [layout, following]
  | cons m ms => simp [layout, following, List.intercalate_cons_cons]

/-- The lines before a line each have a line end after them. -/
theorem layout_append_cons (ending : List Char) (closed : Bool) (xs : List (List Char))
    (y : List Char) (zs : List (List Char)) :
    layout ending closed (xs ++ y :: zs) = xs.flatMap (· ++ ending) ++ y ++
    following ending closed zs := by
  induction xs with
  | nil => exact layout_cons ending closed y zs
  | cons x xs ih =>
    rw [List.cons_append, layout_cons, following, if_neg (by simp), ih]
    simp

section

variable {e : LineEnd} {closed : Bool} {ls : List (List Char)}

theorem linesFrom_append_text {l rest : List Char} (h : '\n' ∉ l)
    (hpair : e = .lf → LineEnd.hasPair (l ++ (e.text.toList ++ rest)) = false) :
    linesFrom [] (l ++ (e.text.toList ++ rest)) = l :: linesFrom [] rest := by
  cases e with
  | lf =>
    have hlast : l.getLast? ≠ some '\r' := by
      intro hl
      obtain ⟨before, rfl⟩ := List.getLast?_eq_some_iff.1 hl
      have hnone : LineEnd.hasPair (before ++ ['\r'] ++ '\n' :: rest) = false := hpair rfl
      rw [List.append_assoc] at hnone
      exact absurd (LineEnd.hasPair_of_append hnone) (by simp [LineEnd.hasPair])
    show linesFrom [] (l ++ '\n' :: rest) = _
    rw [linesFrom_append_feed rest h, List.reverse_nil, List.nil_append, withoutReturn_of_ne hlast]
  | crlf =>
    have hl : '\n' ∉ l ++ ['\r'] := by simpa using h
    show linesFrom [] (l ++ '\r' :: '\n' :: rest) = _
    rw [show l ++ '\r' :: '\n' :: rest = (l ++ ['\r']) ++ '\n' :: rest by simp,
      linesFrom_append_feed rest hl, List.reverse_nil, List.nil_append, withoutReturn_concat]

/-- Cutting the text of lines gives the lines back. -/
theorem linesFrom_layout (hfeed : ∀ l ∈ ls, '\n' ∉ l)
    (hpair : e = .lf → LineEnd.hasPair (layout e.text.toList closed ls) = false)
    (hlast : closed = false → ls.getLast? ≠ some []) :
    linesFrom [] (layout e.text.toList closed ls) = ls := by
  induction ls with
  | nil => simp [layout, linesFrom]
  | cons l ls ih =>
    obtain ⟨hl, hls⟩ := List.forall_mem_cons.1 hfeed
    rw [layout_cons] at hpair ⊢
    cases ls with
    | nil =>
      cases closed with
      | true =>
        have hend : following e.text.toList true [] = e.text.toList ++ [] := by simp [following]
        rw [hend] at hpair ⊢
        rw [linesFrom_append_text hl hpair, linesFrom]
        rfl
      | false =>
        have hne : l ≠ [] := fun he => hlast rfl (by rw [he]; rfl)
        rw [following, linesFrom_of_not_mem (by simpa using hl)]
        simp [hne]
    | cons m ms =>
      have hnext : following e.text.toList closed (m :: ms)
          = e.text.toList ++ layout e.text.toList closed (m :: ms) := by simp [following]
      rw [hnext] at hpair ⊢
      rw [linesFrom_append_text hl hpair, ih hls ?_ ?_]
      · intro he
        have hsuffix := LineEnd.hasPair_of_append (hpair he)
        exact LineEnd.hasPair_of_append hsuffix
      · intro hc
        rw [← List.getLast?_cons_cons (a := l)]
        exact hlast hc

/-- Every line but a last open one has its line feed. -/
theorem count_layout (e : LineEnd) (closed : Bool) (hne : ls ≠ []) :
    (layout e.text.toList closed ls).count '\n' + (if closed then 0 else 1)
      = ls.flatten.count '\n' + ls.length := by
  induction ls with
  | nil => exact absurd rfl hne
  | cons l ls ih =>
    rw [layout_cons, List.count_append, List.flatten_cons, List.count_append, List.length_cons,
      following]
    cases ls with
    | nil => cases closed <;> simp [e.count_text]
    | cons m ms =>
      have hih := ih (by simp)
      rw [if_neg (by simp), List.count_append, e.count_text]
      omega

/-- An empty line left open at the end is told from the text: the text is empty
or ends with a line feed. -/
theorem layout_of_getLast?_eq_nil (h : ls.getLast? = some []) :
    layout e.text.toList false ls = [] ∨ (layout e.text.toList false ls).getLast? = some '\n' := by
  induction ls with
  | nil => cases h
  | cons l ls ih =>
    rw [layout_cons, following]
    cases ls with
    | nil =>
      obtain rfl : l = [] := Option.some.inj h
      exact .inl rfl
    | cons m ms =>
      rw [if_neg (by simp)]
      rw [List.getLast?_cons_cons] at h
      refine .inr ?_
      rw [List.getLast?_append_of_ne_nil _ (by simp [e.text_ne_nil])]
      rcases ih h with hnil | hfeed
      · rw [hnil, List.append_nil, e.getLast?_text]
      · have hne : layout e.text.toList false (m :: ms) ≠ [] := by
          intro he
          rw [he] at hfeed
          cases hfeed
        rw [List.getLast?_append_of_ne_nil _ hne, hfeed]

end

/-! ### Pages -/

namespace Page

theorem toList_toText (p : Page) :
    p.toText.toList = layout p.ending.text.toList p.closed (p.lines.map String.toList) := by
  rw [toText, layout]
  cases hc : p.closed <;> cases p.lines <;> simp [String.toList_intercalate]

theorem lines_ofText (s : String) : (ofText s).lines.map String.toList = linesFrom [] s.toList := by
  simp [ofText, Text.lines, Function.comp_def]

/-- **A page that makes a text is the page of the text** when it ends as the text
does and has as many lines. -/
theorem eq_ofText_of_toText {p : Page} {s : String} (h : p.toText = s)
    (hending : p.ending = (ofText s).ending) (hclosed : p.closed = (ofText s).closed)
    (hlength : p.lines.length = (ofText s).lines.length) : p = ofText s := by
  have hlayout : s.toList = layout p.ending.text.toList p.closed (p.lines.map String.toList) := by
    rw [← h, toList_toText]
  have hlines : (linesFrom [] s.toList).length = (p.lines.map String.toList).length := by
    rw [← lines_ofText, List.length_map, List.length_map, hlength]
  have hfrom : linesFrom [] s.toList = p.lines.map String.toList := by
    by_cases hne : p.lines.map String.toList = []
    · rw [hne] at hlines ⊢
      exact List.length_eq_zero_iff.1 hlines
    · have hs : s.toList ≠ [] := by
        intro he
        rw [he, linesFrom] at hlines
        exact hne (List.length_eq_zero_iff.1 hlines.symm)
      have hclosed' : p.closed = (s.toList.getLast? == some '\n') := hclosed
      -- The text has one line feed for every line that is closed, so there is none inside a line.
      have hzero : (p.lines.map String.toList).flatten.count '\n' = 0 := by
        have hcount := count_layout p.ending p.closed hne
        have hlen := length_linesFrom s.toList
        rw [List.isEmpty_eq_false_iff.2 hs, Bool.false_or, ← hclosed', hlines] at hlen
        rw [← hlayout] at hcount
        omega
      have hfeed : ∀ l ∈ p.lines.map String.toList, '\n' ∉ l := by
        intro l hl hm
        exact List.count_eq_zero.1 hzero (List.mem_flatten_of_mem hl hm)
      have hpair : p.ending = .lf → LineEnd.hasPair
          (layout p.ending.text.toList p.closed (p.lines.map String.toList)) = false := by
        intro he
        rw [← hlayout]
        rw [he, ofText, LineEnd.of] at hending
        split at hending
        · cases hending
        · next hp => simpa using hp
      have hlast : p.closed = false → (p.lines.map String.toList).getLast? ≠ some [] := by
        intro hc hnil
        have hend := layout_of_getLast?_eq_nil (e := p.ending) hnil
        rw [hc] at hlayout hclosed'
        rw [← hlayout] at hend
        rcases hend with hend | hend
        · exact hs hend
        · simp [hend] at hclosed'
      rw [hlayout]
      exact linesFrom_layout hfeed hpair hlast
  obtain ⟨ls, ending, closed⟩ := p
  have heq : ls = (ofText s).lines := by
    have hmap : (ofText s).lines.map String.toList = ls.map String.toList :=
      (lines_ofText s).trans hfrom
    exact (List.map_inj_right fun _ _ he => String.toList_inj.1 he).1 hmap.symm
  dsimp only at hending hclosed
  rw [heq, hending, hclosed]

/-! ### One line of a page -/

/-- The text before a line. -/
def upTo (p : Page) (i : Nat) : List Char :=
  ((p.lines.take i).map String.toList).flatMap (· ++ p.ending.text.toList)

/-- The text after a line, from its line end on. -/
def beyond (p : Page) (i : Nat) : List Char :=
  following p.ending.text.toList p.closed ((p.lines.drop (i + 1)).map String.toList)

/-- The page with another text on one line. -/
def withLine (p : Page) (i : Nat) (line : String) : Page := { p with lines := p.lines.set i line }

/-- Another text on a line leaves what comes before and after the line as it is. -/
theorem toList_toText_withLine {p : Page} {i : Nat} (h : i < p.lines.length) (line : String) :
    (p.withLine i line).toText.toList = p.upTo i ++ line.toList ++ p.beyond i := by
  have hset : p.lines.set i line = p.lines.take i ++ line :: p.lines.drop (i + 1) :=
    List.set_eq_take_append_cons_drop.trans (if_pos h)
  rw [toList_toText, withLine]
  dsimp only
  rw [hset, List.map_append, List.map_cons, layout_append_cons]
  rfl

theorem withLine_of_getElem? {p : Page} {i : Nat} {line : String} (h : p.lines[i]? = some line) :
    p.withLine i line = p := by
  obtain ⟨hi, rfl⟩ := List.getElem?_eq_some_iff.1 h
  rw [withLine, List.set_getElem_self]

/-- No line of a text has a line feed in it. -/
theorem not_mem_of_mem_lines {s line : String} (h : line ∈ (ofText s).lines) :
    '\n' ∉ line.toList := by
  have hl : line.toList ∈ linesFrom [] s.toList := by
    rw [← lines_ofText]
    exact List.mem_map_of_mem h
  exact not_mem_of_mem_linesFrom hl

/-- **A line is told from the text that it is put into.**  If a line makes a page the text that the
page was made from, the page has it already. -/
theorem getElem?_of_toText_withLine {s : String} {i : Nat} {line : String}
    (hi : i < (ofText s).lines.length) (h : ((ofText s).withLine i line).toText = s) :
    (ofText s).lines[i]? = some line ∧ (ofText s).toText = s := by
  have heq : (ofText s).withLine i line = ofText s :=
    eq_ofText_of_toText h rfl rfl (List.length_set ..)
  refine ⟨?_, by rw [heq] at h; exact h⟩
  have hline : ((ofText s).withLine i line).lines[i]? = some line := List.getElem?_set_self hi
  rw [heq] at hline
  exact hline

end Page

end FlowAnalysis.Text
