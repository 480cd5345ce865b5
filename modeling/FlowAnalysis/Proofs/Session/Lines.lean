import FlowAnalysis.Proofs.Text.Insertion
import FlowAnalysis.Session

/-!
# Edits line by line

Two edits work on the lines of a text: lines are put in, and a line is rewritten.  What comes out
has one line end for all lines, but is otherwise the text with the edit made in one place
(`Edit.edits_keep_other_lines`).  In a session the lines that are put in become lines of the text,
where they are put (`Session.inject_inserts_lines`).
-/

namespace FlowAnalysis

open Text

namespace Edit

theorem inject_eq (s : String) (new : List String) (line : Nat) :
    inject s new line
      = if line = 0 ∨ (lines s).length + 1 < line then .error
        (.lineOutOfRange line ((lines s).length + 1))
        else .ok ((Page.ofText s).withLines (line - 1) new).toText := by
  have hguard : (decide (line = 0) || decide ((lines s).length + 1 < line)) = true ↔
      line = 0 ∨ (lines s).length + 1 < line := by
    rw [Bool.or_eq_true, decide_eq_true_iff, decide_eq_true_iff]
  exact if_congr hguard rfl rfl

/-- A line is rewritten in its place. -/
theorem exists_split_of_assignAtLine {s name value t : String} {line : Nat}
    (h : assignAtLine s name line value = .ok t) :
    ∃ before old new after, (lines s)[line - 1]? = some old ∧
      assignOnLine? old name value = some new ∧
      unified s = before ++ old ++ after ∧ lines before = (lines s).take (line - 1) ∧
      t = before ++ new ++ after := by
  simp only [assignAtLine] at h
  cases hold : (Page.ofText s).lines[line - 1]? with
  | none => simp [hold] at h
  | some old =>
    rw [hold] at h
    dsimp only at h
    cases hnew : assignOnLine? old name value with
    | none => simp [hnew] at h
    | some new =>
      rw [hnew] at h
      have ht : ((Page.ofText s).withLine (line - 1) new).toText = t := Except.ok.inj h
      obtain ⟨hi, -⟩ := List.getElem?_eq_some_iff.1 hold
      -- Putting the old line back in its place gives the joined text, so both texts
      -- have the same surroundings.
      refine ⟨String.ofList ((Page.ofText s).upTo (line - 1)), old, new,
        String.ofList ((Page.ofText s).beyond (line - 1)), hold, hnew, ?_, Page.lines_upTo s hi, ?_⟩
      · have htext := Page.toList_toText_withLine hi old
        rw [Page.withLine_of_getElem? hold, Page.toText_ofText] at htext
        rw [← String.toList_inj, htext]
        simp
      · rw [← ht, ← String.toList_inj, Page.toList_toText_withLine hi new]
        simp

/-- **Joining the lines of a text, and what edits leave.**  For every text, joining its lines gives
the text with one line end for all lines, which is the text itself exactly when it does not have
both line ends.  Lines that are put in stand between the first lines of that text and the others,
which stay as they are but for the line end that an open last line gets, and a line that is
rewritten stands between all that comes before and after it. -/
theorem edits_keep_other_lines (s : String) :
    (Page.ofText s).toText = unified s ∧ (unified s = s ↔ ¬ Mixed s) ∧
      (∀ new line t, inject s new line = .ok t →
        ∃ before after, unified s = before ++ after ∧ lines before = (lines s).take (line - 1) ∧
          lines after = (lines s).drop (line - 1) ∧ t = before ++ block s (line - 1) new ++ after) ∧
      ∀ name line value t, assignAtLine s name line value = .ok t →
        ∃ before old new after, (lines s)[line - 1]? = some old ∧
        assignOnLine? old name value = some new ∧
          unified s = before ++ old ++ after ∧ lines before = (lines s).take (line - 1) ∧
          t = before ++ new ++ after := by
  refine ⟨Page.toText_ofText s, unified_eq_iff s, ?_, fun _ _ _ _ => exists_split_of_assignAtLine⟩
  intro new line t h
  rw [inject_eq] at h
  split at h
  · cases h
  · next hin =>
    have hle : line - 1 ≤ (lines s).length := by omega
    rw [← Except.ok.inj h]
    exact Page.exists_split_withLines s hle new

/-- A text with long line ends, whose last line is left open. -/
def openText : String := "x = 1\r\ny"

/-- Both edits are made, and what comes before and after them is what the text had. -/
theorem edits_keep_other_lines_openText :
    inject openText ["z"] 3 = .ok "x = 1\r\ny\r\nz" ∧ assignAtLine openText "x" 1 " 2 " =
      .ok "x = 2\r\ny" ∧
      (∃ before after, openText = before ++ after ∧ lines before = ["x = 1", "y"] ∧
        "x = 1\r\ny\r\nz" = before ++ "\r\nz" ++ after) ∧
      ∃ before new after, openText = before ++ "x = 1" ++ after ∧
      "x = 2\r\ny" = before ++ new ++ after := by
  have heval : ¬ Mixed openText ∧ lines openText = ["x = 1", "y"] ∧
      block openText 2 ["z"] = "\r\nz" ∧ inject openText ["z"] 3 = .ok "x = 1\r\ny\r\nz" ∧
      assignAtLine openText "x" 1 " 2 " = .ok "x = 2\r\ny" := by
    decide +kernel
  obtain ⟨hmixed, hlines, hblock, hinject, hassign⟩ := heval
  obtain ⟨-, hunified, hinjects, hassigns⟩ := edits_keep_other_lines openText
  have hself : unified openText = openText := hunified.2 hmixed
  obtain ⟨before, after, hsplit, hbefore, -, htext⟩ := hinjects _ _ _ hinject
  obtain ⟨before', old, new, after', hold, -, hsplit', -, htext'⟩ := hassigns _ _ _ _ hassign
  rw [hself] at hsplit hsplit'
  rw [hlines] at hbefore hold
  obtain rfl : "x = 1" = old := Option.some.inj hold
  refine ⟨hinject, hassign, ⟨before, after, hsplit, hbefore, ?_⟩, before', new, after',
    hsplit', htext'⟩
  rw [htext, hblock]

/-- A text with both line ends. -/
def mixedText : String := "a\r\nb\n"

/-- **A text with both line ends does not come back.**  Putting in no lines at all changes the
line end of its last line. -/
theorem toText_mixedText :
    (Page.ofText mixedText).toText ≠ mixedText ∧ inject mixedText [] 1 = .ok "a\r\nb\r\n" := by
  decide +kernel

end Edit

namespace Session

variable {s : Session} {new : List String} {line : Nat}

theorem inject_error {e : EditError} (h : Edit.inject s.source new line = .error e) :
    s.inject new line = .error e ∧ s.run (.inject new line) = (s, .failed [.ofEdit e]) := by
  simp [run, inject, h, bind, Except.bind, changed]

theorem inject_ok {t : String} (h : Edit.inject s.source new line = .ok t) :
    s.inject new line = .ok (s.replace t) ∧ s.run (.inject new line) =
    (s.replace t, .source t) := by
  simp [run, inject, h, bind, Except.bind, pure, Except.pure, changed, replace]

/-- **Putting lines in.**  On every session whose text does not end with a carriage return, and for
lines that are not empty, have no line feed in them and do not end with a carriage return: the
session refuses exactly when the number is zero or too great, and stays as it is; otherwise the
lines of its new text are the old ones with the new ones put in, the first of them at the number,
and the new text ends with a line feed exactly when the old one did. -/
theorem inject_inserts_lines (s : Session) (new : List String) (line : Nat)
    (hsource : s.source.toList.getLast? ≠ some '\r')
    (hnew : ∀ l ∈ new, l ≠ "" ∧ '\n' ∉ l.toList ∧ l.toList.getLast? ≠ some '\r') :
    (∀ e, s.inject new line = .error e ↔ (line = 0 ∨ (lines s.source).length + 1 < line) ∧
      e = .lineOutOfRange line ((lines s.source).length + 1)) ∧
    (∀ e, s.inject new line = .error e → s.run (.inject new line) = (s, .failed [.ofEdit e])) ∧
    (¬ (line = 0 ∨ (lines s.source).length + 1 < line) →
      ∃ t, s.inject new line = .ok t ∧ s.run (.inject new line) = (t, .source t.source) ∧
        (∃ before after, lines s.source = before ++ after ∧ before.length + 1 = line ∧
          lines t.source = before ++ new ++ after) ∧
        (t.source.toList.getLast? = some '\n' ↔ s.source.toList.getLast? = some '\n')) := by
  have heq := Edit.inject_eq s.source new line
  by_cases hout : line = 0 ∨ (lines s.source).length + 1 < line
  · rw [if_pos hout] at heq
    obtain ⟨hinject, hrun⟩ := inject_error heq
    refine ⟨fun e => ?_, fun e he => ?_, fun hin => absurd hout hin⟩
    · rw [hinject]
      exact ⟨fun he => ⟨hout, (Except.error.inj he).symm⟩, fun he => by rw [he.2]⟩
    · rw [hinject] at he
      rw [hrun, Except.error.inj he]
  · rw [if_neg hout] at heq
    obtain ⟨hinject, hrun⟩ := inject_ok heq
    -- What the hypotheses are for: the new page can be told from its text.
    have hproper := (Page.proper_ofText hsource).withLines (line - 1) hnew
    refine ⟨fun e => ?_, fun e he => ?_, fun _ => ⟨_, hinject, hrun, ?_, ?_⟩⟩
    · rw [hinject]
      exact ⟨fun he => (by cases he), fun he => absurd he.1 hout⟩
    · rw [hinject] at he
      cases he
    · refine ⟨(lines s.source).take (line - 1), (lines s.source).drop (line - 1),
        (List.take_append_drop _ _).symm, ?_, hproper.lines_toText⟩
      rw [List.length_take]
      omega
    · have hclosed : (Page.ofText s.source).closed = true ↔ s.source.toList.getLast? = some '\n' :=
        beq_iff_eq
      exact hproper.getLast?_toText.trans hclosed

/-- Two lines put between the lines of a text with both line ends. -/
theorem inject_inserts_lines_mixed :
    let s := start (Registry.ofDescriptors []) {} Edit.mixedText
    s.source.toList.getLast? ≠ some '\r' ∧
      (∀ l ∈ ["x", "y"], l ≠ "" ∧ '\n' ∉ l.toList ∧ l.toList.getLast? ≠ some '\r') ∧
      ∃ t, s.inject ["x", "y"] 2 = .ok t ∧ lines t.source = ["a", "x", "y", "b"] ∧
        t.source.toList.getLast? = some '\n' := by
  intro s
  have hsource : s.source.toList.getLast? ≠ some '\r' := by decide
  have hnew : ∀ l ∈ ["x", "y"], l ≠ "" ∧ '\n' ∉ l.toList ∧
      l.toList.getLast? ≠ some '\r' := by decide
  have hlines : lines s.source = ["a", "b"] := by decide
  obtain ⟨-, -, hok⟩ := inject_inserts_lines s ["x", "y"] 2 hsource hnew
  obtain ⟨t, ht, -, ⟨before, after, hold, hlength, hnew'⟩, hend⟩ := hok (by rw [hlines]; decide)
  refine ⟨hsource, hnew, t, ht, ?_, hend.2 (by decide)⟩
  have hsplit : before = ["a"] ∧ after = ["b"] :=
    List.append_inj (hold.symm.trans hlines) (Nat.succ.inj hlength)
  rw [hnew', hsplit.1, hsplit.2]
  rfl

end Session

end FlowAnalysis
