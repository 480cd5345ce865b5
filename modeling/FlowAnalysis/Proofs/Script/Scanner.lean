import FlowAnalysis.Script.Grammar
import Mathlib.Data.List.TakeDrop

/-!
# Scanners split their input

Every scanner of the grammar that accepts splits the characters ahead into a lexeme and the rest:
the two together spell the input, and the lexeme is never empty (`Splits`).  Runs that may be
empty, such as digits or the tail of a word, spell their input as well (`digits_append`,
`wordTail_append` and so on).
-/

namespace FlowAnalysis.Script

/-- A scanner **splits** when what it accepts is a non-empty lexeme that spells the
input together with the rest. -/
class Splits (scan : Scanner) : Prop where
  splits : ∀ {cs l rest : List Char}, scan cs = some (l, rest) → l ≠ [] ∧ l ++ rest = cs

theorem Splits.ne_nil {scan : Scanner} [Splits scan] {cs l rest : List Char}
    (h : scan cs = some (l, rest)) : l ≠ [] := (Splits.splits h).1

theorem Splits.append_eq {scan : Scanner} [Splits scan] {cs l rest : List Char}
    (h : scan cs = some (l, rest)) : l ++ rest = cs := (Splits.splits h).2

theorem span_append (p : Char → Bool) (cs : List Char) : (cs.span p).1 ++ (cs.span p).2 = cs := by
  rw [List.span_eq_takeWhile_dropWhile, List.takeWhile_append_dropWhile]

/-- What is scanned after some characters have been taken. -/
theorem append_of_map_eq_some {scanned : Option (List Char × List Char)} (taken : List Char)
    {cs l rest : List Char} (hs : ∀ {l'}, scanned = some (l', rest) → l' ≠ [] ∧ l' ++ rest = cs)
    (h : (scanned.map fun (e, rest) => (taken ++ e, rest)) = some (l, rest)) :
    l ≠ [] ∧ l ++ rest = taken ++ cs := by
  obtain ⟨⟨e, rest'⟩, he, h⟩ := Option.map_eq_some_iff.1 h
  obtain ⟨rfl, rfl⟩ := Prod.mk.inj h
  obtain ⟨hne, happ⟩ := hs he
  exact ⟨by simp [hne], by rw [List.append_assoc, happ]⟩

theorem Splits.after {scan : Scanner} [Splits scan] (taken : List Char) {cs l rest : List Char}
    (h : ((scan cs).map fun (e, rest) => (taken ++ e, rest)) = some (l, rest)) :
    l ≠ [] ∧ l ++ rest = taken ++ cs :=
  append_of_map_eq_some taken Splits.splits h

namespace Lexeme

/-! ### Words -/

instance : Splits unicodeEscape where
  splits := by
    intro cs l rest h
    unfold unicodeEscape at h
    split at h
    · next cs =>
      have hs := span_append isHexDigit cs
      split at h
      · next d ds rest' heq =>
        obtain ⟨rfl, rfl⟩ := Prod.mk.inj (Option.some.inj h)
        rw [heq] at hs
        exact ⟨by simp, by rw [← hs]; simp⟩
      · cases h
    · split at h
      · obtain ⟨rfl, rfl⟩ := Prod.mk.inj (Option.some.inj h)
        exact ⟨by simp, rfl⟩
      · cases h
    · cases h

instance (ok : Char → Bool) : Splits (wordUnit ok) where
  splits := by
    intro cs l rest h
    unfold wordUnit at h
    split at h
    · next cs => exact Splits.after ['\\', 'u'] h
    · split at h
      · obtain ⟨rfl, rfl⟩ := Prod.mk.inj (Option.some.inj h)
        exact ⟨by simp, rfl⟩
      · cases h
    · cases h

theorem wordTail_append (fuel : Nat) (cs : List Char) :
    (wordTail fuel cs).1 ++ (wordTail fuel cs).2 = cs := by
  induction fuel generalizing cs with
  | zero => rfl
  | succ fuel ih =>
    rw [wordTail]
    split
    · rfl
    · next u rest h =>
      rw [List.append_assoc, ih, Splits.append_eq h]

instance : Splits word where
  splits := by
    intro cs l rest h
    unfold word at h
    split at h
    · cases h
    · next u rest' hu =>
      obtain ⟨rfl, rfl⟩ := Prod.mk.inj (Option.some.inj h)
      refine ⟨by simp [Splits.ne_nil hu], ?_⟩
      rw [List.append_assoc, wordTail_append, Splits.append_eq hu]

instance (w : String) : Splits (keyword w) where
  splits := by
    intro cs l rest h
    unfold keyword at h
    split at h
    · next hw =>
      split at h
      · exact Splits.splits (hw.trans h)
      · cases h
    · cases h

instance : Splits privateName where
  splits := by
    intro cs l rest h
    unfold privateName at h
    split at h
    · exact Splits.after ['#'] h
    · cases h

/-! ### Marks -/

theorem exactly_append {m cs l rest : List Char} (h : exactly m cs = some (l, rest)) :
    l = m ∧ l ++ rest = cs := by
  induction m generalizing cs l with
  | nil =>
    cases cs <;>
    · obtain ⟨rfl, rfl⟩ := Prod.mk.inj (Option.some.inj h)
      exact ⟨rfl, rfl⟩
  | cons c m ih =>
    cases cs with
    | nil => cases h
    | cons d cs =>
      rw [exactly] at h
      split at h
      · next hcd =>
        obtain ⟨⟨l', rest'⟩, hl, he⟩ := Option.map_eq_some_iff.1 h
        obtain ⟨rfl, rfl⟩ := Prod.mk.inj he
        obtain ⟨rfl, rfl⟩ := ih hl
        exact ⟨by rw [hcd], rfl⟩
      · cases h

instance (c : Char) (m : List Char) : Splits (exactly (c :: m)) where
  splits := fun h => ⟨by rw [(exactly_append h).1]; simp, (exactly_append h).2⟩

theorem longMarks_ne_nil : ∀ m ∈ longMarks, m.toList ≠ [] := by decide

instance : Splits mark where
  splits := by
    intro cs l rest h
    unfold mark at h
    split at h
    · split at h <;>
      · obtain ⟨rfl, rfl⟩ := Prod.mk.inj (Option.some.inj h)
        exact ⟨by simp, rfl⟩
    · split at h
      · next r hr =>
        obtain ⟨m, hm, he⟩ := List.exists_of_findSome?_eq_some hr
        obtain ⟨rfl, happ⟩ := exactly_append (he.trans h)
        exact ⟨longMarks_ne_nil m hm, happ⟩
      · split at h
        · split at h
          · obtain ⟨rfl, rfl⟩ := Prod.mk.inj (Option.some.inj h)
            exact ⟨by simp, rfl⟩
          · cases h
        · cases h

instance (m : String) : Splits (symbol m) where
  splits := by
    intro cs l rest h
    unfold symbol at h
    split at h
    · next hm =>
      split at h
      · exact Splits.splits (hm.trans h)
      · cases h
    · cases h

/-! ### Numbers -/

theorem digits_append (ok : Char → Bool) (cs : List Char) :
    (digits ok cs).1 ++ (digits ok cs).2 = cs := by
  fun_induction digits ok cs <;> simp_all

/-- A run of digits that starts with one is not empty, as an underscore is no digit. -/
theorem digits1_splits {ok : Char → Bool} (hok : ok '_' = false) : Splits (digits1 ok) where
  splits := by
    intro cs l rest h
    unfold digits1 at h
    split at h
    · next c cs =>
      split at h
      · next hc =>
        have happ := digits_append ok (c :: cs)
        have hl : l = (digits ok (c :: cs)).1 := by rw [Option.some.inj h]
        rw [Option.some.inj h] at happ
        refine ⟨?_, happ⟩
        rw [hl]
        unfold digits
        split
        · next heq =>
          rw [(List.cons.inj heq).1, hok] at hc
          cases hc
        · next heq =>
          obtain ⟨rfl, rfl⟩ := List.cons.inj heq
          rw [if_pos hc]
          simp
        · next heq => cases heq
      · cases h
    · cases h

instance : Splits (digits1 Char.isDigit) := digits1_splits (by decide)

instance : Splits (digits1 isHexDigit) := digits1_splits (by decide)

instance : Splits (digits1 isOctalDigit) := digits1_splits (by decide)

instance : Splits (digits1 isBinaryDigit) := digits1_splits (by decide)

theorem exponent_append (cs : List Char) : (exponent cs).1 ++ (exponent cs).2 = cs := by
  unfold exponent
  split
  · next e s rest =>
    split
    · split
      next sign rest' hsign =>
      have hrest : sign ++ rest' = s :: rest := by
        split at hsign <;>
        · obtain ⟨rfl, rfl⟩ := Prod.mk.inj hsign
          rfl
      split
      · next ds rest'' hds =>
        have := Splits.append_eq hds
        simp only [List.cons_append, List.append_assoc, this, hrest]
      · rfl
    · rfl
  · rfl

theorem bigMark_append (cs : List Char) : (bigMark cs).1 ++ (bigMark cs).2 = cs := by
  unfold bigMark
  split <;> rfl

theorem based_append {letter : Char} {ok : Char → Bool} [Splits (digits1 ok)]
    {cs l rest : List Char} (h : based letter ok cs = some (l, rest)) :
    l ≠ [] ∧ l ++ rest = '0' :: letter :: cs := by
  obtain ⟨⟨ds, rest'⟩, hds, he⟩ := Option.map_eq_some_iff.1 h
  have hn := bigMark_append rest'
  rcases hb : bigMark rest' with ⟨n, rest''⟩
  simp only [hb, Prod.mk.injEq] at he hn
  obtain ⟨rfl, rfl⟩ := he
  refine ⟨by simp, ?_⟩
  rw [← Splits.append_eq hds, ← hn]
  simp

instance : Splits decimal where
  splits := by
    intro cs l rest h
    unfold decimal at h
    split at h
    · cases h
    · next whole rest' hw =>
      have hf : ((digits1 Char.isDigit rest').getD ([], rest')).1
          ++ ((digits1 Char.isDigit rest').getD ([], rest')).2 = rest' := by
        cases hd : digits1 Char.isDigit rest' with
        | none => rfl
        | some r => exact Splits.append_eq hd
      rcases hd : (digits1 Char.isDigit rest').getD ([], rest') with ⟨fraction, rest₁⟩
      have hx := exponent_append rest₁
      rcases he : exponent rest₁ with ⟨e, rest₂⟩
      simp only [hd, he, Option.some.injEq, Prod.mk.injEq] at h hf hx
      obtain ⟨rfl, rfl⟩ := h
      refine ⟨by simp, ?_⟩
      rw [← Splits.append_eq hw, ← hf, ← hx]
      simp
    · next whole rest' _ hw =>
      have hne := Splits.ne_nil hw
      have happ := Splits.append_eq hw
      split at h
      · have hn := bigMark_append rest'
        rcases hb : bigMark rest' with ⟨n, rest''⟩
        simp only [hb, Option.some.injEq, Prod.mk.injEq] at h hn
        obtain ⟨rfl, rfl⟩ := h
        exact ⟨by simp [hne], by rw [List.append_assoc, hn, happ]⟩
      · next e rest'' _ he =>
        obtain ⟨rfl, rfl⟩ := Prod.mk.inj (Option.some.inj h)
        have hx := exponent_append rest'
        rw [he] at hx
        exact ⟨by simp [hne], by rw [List.append_assoc, hx, happ]⟩

instance : Splits number where
  splits := by
    intro cs l rest h
    unfold number at h
    split at h
    · next letter cs =>
      -- A letter that names no base leaves the digits to the decimal reading.
      have key : ∀ {other : Option (List Char × List Char)},
          (∀ l' rest', other = some (l', rest') → l' ≠ [] ∧ l' ++ rest' = '0' :: letter :: cs) →
          (match other with
            | some r => some r
            | none => decimal ('0' :: letter :: cs)) = some (l, rest) →
          l ≠ [] ∧ l ++ rest = '0' :: letter :: cs := by
        intro other hother h
        cases other with
        | none => exact (inferInstance : Splits decimal).splits h
        | some r => exact hother l rest h
      refine key ?_ h
      intro l' rest' hb
      split at hb
      · exact based_append hb
      · split at hb
        · exact based_append hb
        · split at hb
          · exact based_append hb
          · cases hb
    · next cs =>
      split at h
      · cases h
      · next fraction rest' hf =>
        have hx := exponent_append rest'
        rcases he : exponent rest' with ⟨e, rest''⟩
        simp only [he, Option.some.injEq, Prod.mk.injEq] at h hx
        obtain ⟨rfl, rfl⟩ := h
        refine ⟨by simp, ?_⟩
        rw [← Splits.append_eq hf, ← hx]
        simp
    · exact Splits.splits h

/-! ### Strings -/

theorem octals_append (n : Nat) (cs : List Char) : (octals n cs).1 ++ (octals n cs).2 = cs := by
  fun_induction octals n cs <;> simp_all

instance : Splits escaped where
  splits := by
    intro cs l rest h
    unfold escaped at h
    split at h
    · split at h
      · obtain ⟨rfl, rfl⟩ := Prod.mk.inj (Option.some.inj h)
        exact ⟨by simp, rfl⟩
      · cases h
    · cases h
    · exact Splits.after ['u'] h
    · obtain ⟨rfl, rfl⟩ := Prod.mk.inj (Option.some.inj h)
      exact ⟨by simp, rfl⟩
    · next c cs _ _ _ _ =>
      split at h
      · next hc =>
        have happ := octals_append 3 (c :: cs)
        have hl : l = (octals 3 (c :: cs)).1 := by rw [Option.some.inj h]
        rw [Option.some.inj h] at happ
        refine ⟨?_, happ⟩
        rw [hl, octals, if_pos hc]
        simp
      · obtain ⟨rfl, rfl⟩ := Prod.mk.inj (Option.some.inj h)
        exact ⟨by simp, rfl⟩
    · cases h

instance (quote : Char) (fuel : Nat) : Splits (stringTail quote fuel) where
  splits := by
    induction fuel with
    | zero =>
      intro cs l rest h
      rw [stringTail] at h
      cases h
    | succ fuel ih =>
      have : Splits (stringTail quote fuel) := ⟨ih⟩
      intro cs l rest h
      cases cs with
      | nil => cases h
      | cons c cs =>
        rw [stringTail] at h
        split at h
        · obtain ⟨rfl, rfl⟩ := Prod.mk.inj (Option.some.inj h)
          exact ⟨by simp, rfl⟩
        · split at h
          · cases h
          · split at h
            · next hc =>
              split at h
              · cases h
              · next e rest' he =>
                obtain ⟨hne, happ⟩ := Splits.after ('\\' :: e) h
                exact ⟨hne, by rw [happ, hc, List.cons_append, Splits.append_eq he]⟩
            · exact Splits.after [c] h

instance : Splits string where
  splits := by
    intro cs l rest h
    unfold string at h
    split at h
    · next c cs =>
      split at h
      · exact Splits.after [c] h
      · cases h
    · cases h

theorem regexTail_append (inClass : Bool) (cs : List Char) {l rest : List Char}
    (h : regexTail inClass cs = some (l, rest)) : l ≠ [] ∧ l ++ rest = cs := by
  fun_induction regexTail inClass cs generalizing l with
  | case1 => cases h
  | case2 inClass c cs _ ih => exact append_of_map_eq_some ['\\', c] ih h
  | case3 => cases h
  | case4 inClass cs ih => exact append_of_map_eq_some ['['] ih h
  | case5 inClass cs ih => exact append_of_map_eq_some [']'] ih h
  | case6 cs ih => exact append_of_map_eq_some ['/'] ih h
  | case7 inClass cs _ flags rest' hs =>
    obtain ⟨rfl, rfl⟩ := Prod.mk.inj (Option.some.inj h)
    have := span_append Char.isLower cs
    rw [hs] at this
    exact ⟨by simp, by rw [← this]; rfl⟩
  | case8 inClass c cs _ _ _ _ _ ih => exact append_of_map_eq_some [c] ih h
  | case9 => cases h

instance (inClass : Bool) : Splits (regexTail inClass) := ⟨regexTail_append inClass _⟩

instance : Splits regex where
  splits := by
    intro cs l rest h
    unfold regex at h
    split at h
    · split at h
      · cases h
      · exact Splits.after ['/'] h
    · cases h

/-! ### Comments, the first line and templates -/

theorem blockTail_append (cs : List Char) {l rest : List Char}
    (h : blockTail cs = some (l, rest)) : l ≠ [] ∧ l ++ rest = cs := by
  fun_induction blockTail cs generalizing l with
  | case1 cs =>
    obtain ⟨rfl, rfl⟩ := Prod.mk.inj (Option.some.inj h)
    exact ⟨by simp, rfl⟩
  | case2 c cs _ ih => exact append_of_map_eq_some [c] ih h
  | case3 => cases h

instance : Splits blockTail := ⟨blockTail_append _⟩

/-- A fixed opening and a run after it. -/
theorem append_of_span {p : Char → Bool} (taken : List Char) (hne : taken ≠ [])
    {cs l rest : List Char}
    (h : (match cs.span p with | (run, rest) => some (taken ++ run, rest)) = some (l, rest)) :
    l ≠ [] ∧ l ++ rest = taken ++ cs := by
  have := span_append p cs
  rcases hs : cs.span p with ⟨run, rest'⟩
  rw [hs] at h this
  obtain ⟨rfl, rfl⟩ := Prod.mk.inj (Option.some.inj h)
  exact ⟨by simp [hne], by rw [← this, List.append_assoc]⟩

instance : Splits comment where
  splits := by
    intro cs l rest h
    unfold comment at h
    split at h
    · exact append_of_span ['/', '/'] (by simp) h
    · exact Splits.after ['/', '*'] h
    · cases h

instance : Splits markupComment where
  splits := by
    intro cs l rest h
    unfold markupComment at h
    split at h
    · exact append_of_span ['<', '!', '-', '-'] (by simp) h
    · exact append_of_span ['-', '-', '>'] (by simp) h
    · cases h

instance : Splits hashBang where
  splits := by
    intro cs l rest h
    unfold hashBang at h
    split at h
    · exact append_of_span ['#', '!'] (by simp) h
    · cases h

theorem templateRun_append (cs : List Char) : (templateRun cs).1 ++ (templateRun cs).2 = cs := by
  fun_induction templateRun cs <;> simp_all

instance : Splits templateChars where
  splits := by
    intro cs l rest h
    have happ := templateRun_append cs
    unfold templateChars at h
    split at h
    · cases h
    · next hne =>
      rw [Option.some.inj h] at happ
      refine ⟨?_, happ⟩
      rintro rfl
      exact hne rest (Option.some.inj h)

instance : Splits escapeSequence where
  splits := by
    intro cs l rest h
    unfold escapeSequence at h
    split at h
    · exact Splits.after ['\\'] h
    · cases h

end Lexeme

/-! ### Scanners of the grammar -/

instance splits_or (scan scan' : Scanner) [Splits scan] [Splits scan'] :
    Splits fun cs => (scan cs).or (scan' cs) where
  splits := by
    intro cs l rest h
    rcases Option.or_eq_some_iff.1 h with h | ⟨_, h⟩
    · exact Splits.splits h
    · exact Splits.splits h

namespace Grammar

open Lexeme

instance (barred : List String) : Splits (wordBut barred) where
  splits := by
    intro cs l rest h
    unfold wordBut at h
    split at h
    · next hw =>
      split at h
      · cases h
      · exact Splits.splits (hw.trans h)
    · cases h

instance : Splits freeWord := inferInstanceAs (Splits (wordBut reservedWords))

instance : Splits updateOperator := splits_or (symbol "++") (symbol "--")

instance : Splits unaryOperator where
  splits := by
    intro cs l rest h
    unfold unaryOperator at h
    split at h
    · next hm =>
      split at h
      · exact Splits.splits (hm.trans h)
      · cases h
    · split at h
      · next hw =>
        split at h
        · exact Splits.splits (hw.trans h)
        · cases h
      · cases h

instance : Splits binaryOperator where
  splits := by
    intro cs l rest h
    unfold binaryOperator at h
    split at h
    · next hm =>
      split at h
      · exact (splits_or mark word).splits (hm.trans h)
      · cases h
    · cases h

instance : Splits augmentedOperator where
  splits := by
    intro cs l rest h
    unfold augmentedOperator at h
    split at h
    · next hm =>
      split at h
      · exact Splits.splits (hm.trans h)
      · cases h
    · cases h

end Grammar

end FlowAnalysis.Script
