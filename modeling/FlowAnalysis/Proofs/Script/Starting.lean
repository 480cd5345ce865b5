import FlowAnalysis.Proofs.Script.Operand
import FlowAnalysis.Proofs.Script.Reading
import Mathlib.Data.List.TakeWhile

/-!
# How readers start

How the text of what a reader reads starts is found by instance resolution: `StartsFixed` is for
pieces that open with a mark, a digit or a keyword, `StartsBreak` for pieces that open with a mark
that no property opens with, and `Continues` for pieces that can follow an operand.  The versions
for one node and for the scanner of a token come before them.
-/

namespace FlowAnalysis.Script

open Node Reader

/-! ### Words -/

namespace Lexeme

/-- What holds of every mark, found by trying them. -/
theorem of_isMark {p : Char → Bool}
    (hp : ":;\x60\"'@#.,|^&<=>+-*/\\%?!~()[]\x7b\x7d".toList.all p = true) {c : Char}
    (h : isMark c = true) : p c = true :=
  List.all_eq_true.1 hp c (by simpa [isMark] using h)

theorem isMark_of_isHexDigit {c : Char} (h : isHexDigit c = true) : isMark c = false := by
  by_contra hc
  have hnot : (!isHexDigit c) = true :=
    of_isMark (p := fun d => !isHexDigit d) (by decide) (by simpa using hc)
  rw [h] at hnot
  cases hnot

theorem isWord_nil : IsWord [] := List.forall_mem_nil _

theorem isWord_append {cs ds : List Char} (h : IsWord cs) (h' : IsWord ds) : IsWord (cs ++ ds) :=
  fun c hc => (List.mem_append.1 hc).elim (h c) (h' c)

theorem isWord_of_forall {cs : List Char} (h : ∀ c ∈ cs, isMark c = false) : IsWord cs := by
  intro c hc hm
  rw [h c hc] at hm
  cases hm

theorem isWord_unicodeEscape {cs l rest : List Char}
    (h : unicodeEscape cs = some (l, rest)) : IsWord l := by
  unfold unicodeEscape at h
  split at h
  · next cs =>
    split at h
    · next d ds rest' heq =>
      obtain ⟨rfl, rfl⟩ := Prod.mk.inj (Option.some.inj h)
      have hds : ∀ c ∈ d :: ds, isMark c = false := by
        intro c hc
        rw [List.span_eq_takeWhile_dropWhile] at heq
        rw [← (Prod.mk.inj heq).1] at hc
        exact isMark_of_isHexDigit (List.mem_takeWhile_imp hc)
      have hbraces : IsWord ['\x7b'] ∧ IsWord ['\x7d'] := by simp [IsWord]
      exact isWord_append (isWord_append hbraces.1 (isWord_of_forall hds)) hbraces.2
    · cases h
  · split at h
    · next hd =>
      obtain ⟨rfl, rfl⟩ := Prod.mk.inj (Option.some.inj h)
      simp only [Bool.and_eq_true] at hd
      refine isWord_of_forall ?_
      simp only [List.forall_mem_cons]
      exact ⟨isMark_of_isHexDigit hd.1.1.1, isMark_of_isHexDigit hd.1.1.2,
        isMark_of_isHexDigit hd.1.2, isMark_of_isHexDigit hd.2, List.forall_mem_nil _⟩
    · cases h
  · cases h

theorem isWord_wordUnit {ok : Char → Bool} (hok : ∀ c, ok c = true → isMark c = false)
    {cs l rest : List Char} (h : wordUnit ok cs = some (l, rest)) : IsWord l := by
  unfold wordUnit at h
  split at h
  · next cs =>
    obtain ⟨⟨e, rest'⟩, he, heq⟩ := Option.map_eq_some_iff.1 h
    obtain ⟨rfl, rfl⟩ := Prod.mk.inj heq
    have hescape : IsWord ['\\', 'u'] := by simp [IsWord, show isMark 'u' = false by decide]
    exact isWord_append hescape (isWord_unicodeEscape he)
  · next c cs _ =>
    split at h
    · next hc =>
      obtain ⟨rfl, rfl⟩ := Prod.mk.inj (Option.some.inj h)
      exact isWord_of_forall (by simpa using hok c hc)
    · cases h
  · cases h

theorem isMark_of_isWordPart (c : Char) (h : isWordPart c = true) : isMark c = false := by
  simp only [isWordPart, Bool.and_eq_true, Bool.not_eq_true'] at h
  exact h.2

theorem isMark_of_isWordStart (c : Char) (h : isWordStart c = true) : isMark c = false := by
  simp only [isWordStart, Bool.and_eq_true] at h
  exact isMark_of_isWordPart c h.1

theorem isWord_wordTail (fuel : Nat) (cs : List Char) : IsWord (wordTail fuel cs).1 := by
  induction fuel generalizing cs with
  | zero => exact isWord_nil
  | succ fuel ih =>
    rw [wordTail]
    split
    · exact isWord_nil
    · next u rest hu => exact isWord_append (isWord_wordUnit isMark_of_isWordPart hu) (ih rest)

theorem isWord_word {cs l rest : List Char} (h : word cs = some (l, rest)) : IsWord l := by
  unfold word at h
  split at h
  · cases h
  · next u rest' hu =>
    obtain ⟨rfl, rfl⟩ := Prod.mk.inj (Option.some.inj h)
    exact isWord_append (isWord_wordUnit isMark_of_isWordStart hu) (isWord_wordTail _ _)

theorem keyword_eq {w : String} {cs l rest : List Char} (h : keyword w cs = some (l, rest)) :
    l = w.toList := by
  unfold keyword at h
  split at h
  · split at h
    · next hw =>
      obtain ⟨rfl, rfl⟩ := Prod.mk.inj (Option.some.inj h)
      simpa using hw
    · cases h
  · cases h

theorem symbol_eq {m : String} {cs l rest : List Char} (h : symbol m cs = some (l, rest)) :
    l = m.toList := by
  unfold symbol at h
  split at h
  · split at h
    · next hm =>
      obtain ⟨rfl, rfl⟩ := Prod.mk.inj (Option.some.inj h)
      simpa using hm
    · cases h
  · cases h

end Lexeme

/-! ### How readers start -/

/-- A scanner of lexemes that open with a mark, a digit or a keyword. -/
class ScansFixed (scan : Scanner) : Prop where
  opens : ∀ {cs l rest : List Char}, scan cs = some (l, rest) → OpensFixed l

/-- A scanner of lexemes that open with a mark that is neither a dot nor a question mark. -/
class ScansBreak (scan : Scanner) : Prop where
  breaks : ∀ {cs l rest : List Char}, scan cs = some (l, rest) → ∃ c l', l = c :: l' ∧
    Lexeme.isMark c = true ∧ c ≠ '.' ∧ c ≠ '?'

/-- Pieces that open with a mark, a digit or a keyword. -/
class StartsFixed (p : Pieces) : Prop where
  opens : ∀ {i : Input} {ns : List Node} {j : Input}, p i = some (ns, j) →
    OpensFixed (textAll ns).toList

/-- A node that opens with a mark, a digit or a keyword. -/
class StartsFixedNode (x : Reader Node) : Prop where
  opens : ∀ {i : Input} {n : Node} {j : Input}, x i = some (n, j) → OpensFixed n.text.toList

/-- Pieces that open with blanks and a mark that is neither a dot nor a question mark. -/
class StartsBreak (p : Pieces) : Prop where
  breaks : ∀ {i : Input} {ns : List Node} {j : Input}, p i = some (ns, j) →
    Breaks (sourceAll ns).toList

/-- A node that opens with blanks and a mark that is neither a dot nor a question mark. -/
class StartsBreakNode (x : Reader Node) : Prop where
  breaks : ∀ {i : Input} {n : Node} {j : Input}, x i = some (n, j) → Breaks n.source.toList

/-- Pieces that can follow an operand, properties apart. -/
class Continues (p : Pieces) : Prop where
  follows : ∀ {i : Input} {ns : List Node} {j : Input}, p i = some (ns, j) →
    Follows (sourceAll ns).toList

/-- A mark that is neither a dot nor a question mark, nor starts with one. -/
class BreakingMark (m : String) : Prop where
  head : m.toList.head?.any (fun c => Lexeme.isMark c && c != '.' && c != '?') = true

/-- A word that an operand can open with. -/
class OpeningWord (w : String) : Prop where
  mem : w ∈ openingWords

/-- A word that can follow an operand or a comment. -/
class FollowingWord (w : String) : Prop where
  mem : w ∈ followingWords

namespace Reader

variable {i j : Input} {p q : Pieces} {x y : Reader Node} {k : Kind} {scan : Scanner}

/-! ### Scanners -/

theorem BreakingMark.exists_cons (m : String) [hm : BreakingMark m] :
    ∃ c l, m.toList = c :: l ∧ Lexeme.isMark c = true ∧ c ≠ '.' ∧ c ≠ '?' := by
  have h := hm.head
  cases hl : m.toList with
  | nil => simp [hl] at h
  | cons c l => exact ⟨c, l, rfl, by simpa [hl, and_assoc] using h⟩

instance (m : String) [BreakingMark m] : ScansBreak (Lexeme.symbol m) where
  breaks := by
    intro cs l rest h
    rw [Lexeme.symbol_eq h]
    exact BreakingMark.exists_cons m

instance (m : String) [BreakingMark m] : ScansBreak (Lexeme.exactly m.toList) where
  breaks := by
    intro cs l rest h
    rw [(Lexeme.exactly_append h).1]
    exact BreakingMark.exists_cons m

instance (priority := low) [ScansBreak scan] : ScansFixed scan where
  opens := by
    intro cs l rest h
    obtain ⟨c, l', rfl, hc, -⟩ := ScansBreak.breaks h
    exact .mark hc

instance (w : String) [hw : OpeningWord w] : ScansFixed (Lexeme.keyword w) where
  opens := by
    intro cs l rest h
    rw [Lexeme.keyword_eq h]
    exact opensFixed_of_mem hw.mem

/-! ### Tokens and comments -/

/-- What a token is: spacing and a lexeme that its scanner accepts. -/
theorem token_spec {n : Node} (h : token k scan i = some (n, j)) :
    n.Spaced ∧ n.kind = k ∧ n.role = none ∧ ∃ cs rest, scan cs = some (n.text.toList, rest) := by
  unfold token at h
  dsimp only at h
  split at h
  · next lexeme rest hl =>
    obtain ⟨rfl, rfl⟩ := Prod.mk.inj (Option.some.inj h)
    refine ⟨.mk ?_, rfl, rfl, (i.chars.span Lexeme.isSpacing).2, rest, ?_⟩
    · intro c hc
      rw [String.toList_ofList, List.span_eq_takeWhile_dropWhile] at hc
      exact List.mem_takeWhile_imp hc
    · rw [text, String.toList_ofList]
      exact hl
  · cases h

end Reader

/-- The source of a token is spacing and its text. -/
theorem Node.Spaced.source_eq {n : Node} (h : n.Spaced) :
    ∃ blank, (∀ b ∈ blank, Lexeme.isSpacing b = true) ∧
    n.source.toList = blank ++ n.text.toList := by
  cases h with
  | @mk _ _ _ blank lexeme h =>
    exact ⟨blank.toList, h, by rw [source_token, String.toList_append, text]⟩

theorem Node.IsGap.breaks {n : Node} (h : n.IsGap) : Breaks n.source.toList := by
  obtain ⟨blank, hb, hs⟩ := h.spaced.source_eq
  obtain ⟨cs, hcs⟩ := List.head?_eq_some_iff.1 h.slash
  rw [hs, hcs]
  exact .mk hb (by decide) (by decide) (by decide)

theorem Node.textAll_append {ns : List Node} (h : ns ≠ []) (ms : List Node) :
    textAll (ns ++ ms) = textAll ns ++ sourceAll ms := by
  cases ns with
  | nil => exact absurd rfl h
  | cons n ns => rw [List.cons_append, textAll, textAll, sourceAll_append, String.append_assoc]

/-- What opens pieces opens those that come after them too. -/
theorem Node.opensFixed_append {ns : List Node} (h : OpensFixed (textAll ns).toList)
    (ms : List Node) : OpensFixed (textAll (ns ++ ms)).toList := by
  -- No piece means no text, which opens with nothing.
  have hne : ns ≠ [] := by
    rintro rfl
    generalize ht : (textAll []).toList = t at h
    cases h with
    | mark => cases ht
    | digit => cases ht
    | @word w cs hw =>
      have hempty : ∀ v ∈ openingWords, v.toList ≠ [] := by decide
      exact hempty w hw (List.append_eq_nil_iff.1 ht.symm).1
  rw [textAll_append hne, String.toList_append]
  exact h.append _

theorem Node.breaks_append {ns : List Node} (h : Breaks (sourceAll ns).toList) (ms : List Node) :
    Breaks (sourceAll (ns ++ ms)).toList := by
  rw [sourceAll_append, String.toList_append]
  exact h.append _

theorem Node.breaks_of_gaps {cs : List Node} (hcs : ∀ c ∈ cs, c.IsGap) (hne : cs ≠ [])
    (ns : List Node) : Breaks (sourceAll (cs ++ ns)).toList := by
  cases cs with
  | nil => exact absurd rfl hne
  | cons c cs =>
    rw [List.cons_append, sourceAll, String.toList_append]
    exact (hcs c List.mem_cons_self).breaks.append _

namespace Reader

variable {i j : Input} {p q : Pieces} {x y : Reader Node} {k : Kind} {scan : Scanner}

theorem isGap_of_comment {n : Node}
    (h : token .comment Lexeme.comment i = some (n, j)) : n.IsGap := by
  obtain ⟨hs, hk, hr, cs, rest, hc⟩ := token_spec h
  refine ⟨hk, hs, hr, ?_⟩
  unfold Lexeme.comment at hc
  split at hc
  · rw [← (Prod.mk.inj (Option.some.inj hc)).1]
    rfl
  · obtain ⟨⟨l, rest'⟩, -, he⟩ := Option.map_eq_some_iff.1 hc
    rw [← (Prod.mk.inj he).1]
    rfl
  · cases hc

theorem isGap_of_mem_comments {ns : List Node} (h : comments i = some (ns, j)) :
    ∀ n ∈ ns, n.IsGap :=
  forall_mem_many isGap_of_comment h

/-- A node with the comments before it. -/
theorem gaps_of_sub {ns : List Node} (h : sub x i = some (ns, j)) :
    ∃ cs n l, ns = cs ++ [n] ∧ x l = some (n, j) ∧ ∀ c ∈ cs, c.IsGap := by
  obtain ⟨cs, l, hc, h⟩ := bind_eq_some.1 h
  obtain ⟨n, l', hn, h⟩ := bind_eq_some.1 h
  obtain ⟨rfl, rfl⟩ := pure_eq_some.1 h
  exact ⟨cs, n, l, rfl, hn, isGap_of_mem_comments hc⟩

/-! ### Pieces that open with a mark or a keyword -/

instance [ScansFixed scan] : StartsFixedNode (token k scan) where
  opens := by
    intro i n j h
    obtain ⟨-, -, -, cs, rest, hs⟩ := token_spec h
    exact ScansFixed.opens hs

instance (r : Role) [StartsFixedNode x] : StartsFixedNode (Node.withRole r <$> x) where
  opens := by
    intro i n j h
    obtain ⟨m, hm, rfl⟩ := map_eq_some.1 h
    rw [withRole_eq_inRole, text_inRole]
    exact StartsFixedNode.opens hm

instance [StartsFixedNode x] : StartsFixed (sub x) where
  opens := by
    intro i ns j h
    obtain ⟨cs, n, l, rfl, hn, hcs⟩ := gaps_of_sub h
    cases cs with
    | nil =>
      rw [List.nil_append, textAll, String.toList_append]
      exact (StartsFixedNode.opens hn).append _
    | cons c cs =>
      obtain ⟨t, ht⟩ := List.head?_eq_some_iff.1 (hcs c List.mem_cons_self).slash
      rw [List.cons_append, textAll, String.toList_append, ht]
      exact .mark (by decide)

instance (r : Role) [StartsFixedNode x] : StartsFixed (field r x) :=
  inferInstanceAs (StartsFixed (sub (Node.withRole r <$> x)))

instance (w : String) [OpeningWord w] : StartsFixed (kw w) :=
  inferInstanceAs (StartsFixed (sub (token .anonymous (Lexeme.keyword w))))

instance (m : String) [BreakingMark m] : StartsFixed (sym m) :=
  inferInstanceAs (StartsFixed (sub (token .anonymous (Lexeme.symbol m))))

instance (m : String) [BreakingMark m] : StartsFixed (glyph m) :=
  inferInstanceAs (StartsFixed (sub (token .anonymous (Lexeme.exactly m.toList))))

instance (ps : List Pieces) [StartsFixed p] : StartsFixed (seq (p :: ps)) where
  opens := by
    intro i ns j h
    obtain ⟨l, ms, ls, hp, hs, rfl⟩ := seq_cons_eq_some h
    exact opensFixed_append (StartsFixed.opens hp) ls

instance (ps : List Pieces) [StartsFixed p] [StartsFixed (seq ps)] :
    StartsFixed (seq (opt p :: ps)) where
  opens := by
    intro i ns j h
    obtain ⟨l, ms, ls, hp, hs, rfl⟩ := seq_cons_eq_some h
    rcases or_eq_some hp with hp | hp
    · exact opensFixed_append (StartsFixed.opens hp) ls
    · obtain ⟨rfl, rfl⟩ := pure_eq_some.1 hp
      exact StartsFixed.opens hs

/-- Pieces that are repeated or left out before others. -/
instance (ps : List Pieces) [StartsFixed p] [StartsFixed (seq ps)] :
    StartsFixed (seq (star p :: ps)) where
  opens := by
    intro i ns j h
    obtain ⟨l, ms, ls, hp, hs, rfl⟩ := seq_cons_eq_some h
    obtain ⟨mss, hm, rfl⟩ := map_eq_some.1 hp
    -- The first repetition that gives pieces opens the whole.
    have hopens : mss.flatten = [] ∨ OpensFixed (textAll mss.flatten).toList := by
      refine many_induction (P := fun mss _ => mss.flatten = [] ∨
        OpensFixed (textAll mss.flatten).toList) ?_
        (.inl rfl) hm
      intro mss l' ms l'' hmss hms
      rw [List.flatten_append, List.flatten_singleton]
      rcases hmss with hnil | hopens
      · rw [hnil, List.nil_append]
        exact .inr (StartsFixed.opens hms)
      · exact .inr (opensFixed_append hopens ms)
    rcases hopens with hnil | hopens
    · rw [hnil, List.nil_append]
      exact StartsFixed.opens hs
    · exact opensFixed_append hopens ls

instance [StartsFixed p] : StartsFixedNode (node k p) where
  opens := by
    intro i n j h
    obtain ⟨ns, hn, rfl⟩ := map_eq_some.1 h
    exact StartsFixed.opens hn

/-! ### Pieces that go on with an operand -/

instance [ScansBreak scan] : StartsBreakNode (token k scan) where
  breaks := by
    intro i n j h
    obtain ⟨hspaced, -, -, cs, rest, hs⟩ := token_spec h
    obtain ⟨blank, hb, hsource⟩ := hspaced.source_eq
    obtain ⟨c, l, hl, hc, hdot, hquery⟩ := ScansBreak.breaks hs
    rw [hsource, hl]
    exact .mk hb hc hdot hquery

instance (r : Role) [StartsBreakNode x] : StartsBreakNode (Node.withRole r <$> x) where
  breaks := by
    intro i n j h
    obtain ⟨m, hm, rfl⟩ := map_eq_some.1 h
    rw [withRole_eq_inRole, source_inRole]
    exact StartsBreakNode.breaks hm

instance [StartsBreakNode x] : StartsBreak (sub x) where
  breaks := by
    intro i ns j h
    obtain ⟨cs, n, l, rfl, hn, hcs⟩ := gaps_of_sub h
    by_cases hne : cs = []
    · rw [hne, List.nil_append, sourceAll_singleton]
      exact StartsBreakNode.breaks hn
    · exact breaks_of_gaps hcs hne [n]

instance (r : Role) [StartsBreakNode x] : StartsBreak (field r x) :=
  inferInstanceAs (StartsBreak (sub (Node.withRole r <$> x)))

instance (m : String) [BreakingMark m] : StartsBreak (sym m) :=
  inferInstanceAs (StartsBreak (sub (token .anonymous (Lexeme.symbol m))))

instance (m : String) [BreakingMark m] : StartsBreak (glyph m) :=
  inferInstanceAs (StartsBreak (sub (token .anonymous (Lexeme.exactly m.toList))))

instance (ps : List Pieces) [StartsBreak p] : StartsBreak (seq (p :: ps)) where
  breaks := by
    intro i ns j h
    obtain ⟨l, ms, ls, hp, hs, rfl⟩ := seq_cons_eq_some h
    exact breaks_append (StartsBreak.breaks hp) ls

instance (ps : List Pieces) [StartsBreak p] [StartsBreak (seq ps)] :
    StartsBreak (seq (opt p :: ps)) where
  breaks := by
    intro i ns j h
    obtain ⟨l, ms, ls, hp, hs, rfl⟩ := seq_cons_eq_some h
    rcases or_eq_some hp with hp | hp
    · exact breaks_append (StartsBreak.breaks hp) ls
    · obtain ⟨rfl, rfl⟩ := pure_eq_some.1 hp
      exact StartsBreak.breaks hs

instance [StartsBreak p] : StartsBreakNode (node k p) where
  breaks := by
    intro i n j h
    obtain ⟨ns, hn, rfl⟩ := map_eq_some.1 h
    exact StartsBreak.breaks hn

instance (priority := low) [StartsBreak p] : Continues p := ⟨fun h => .mark (StartsBreak.breaks h)⟩

/-- A word that can follow an operand, with the comments before it. -/
theorem follows_word {w : String} [hw : FollowingWord w] {n : Node}
    (hn : token k (Lexeme.keyword w) i = some (n, j)) {cs : List Node} (hcs : ∀ c ∈ cs, c.IsGap) :
    Follows (sourceAll (cs ++ [n])).toList := by
  by_cases hne : cs = []
  · obtain ⟨hspaced, -, -, ds, rest, hs⟩ := token_spec hn
    obtain ⟨blank, hb, hsource⟩ := hspaced.source_eq
    rw [hne, List.nil_append, sourceAll_singleton, hsource,
      Lexeme.keyword_eq hs, ← List.append_nil w.toList]
    exact .word hb hw.mem
  · exact .mark (breaks_of_gaps hcs hne [n])

instance (w : String) [FollowingWord w] : Continues (kw w) where
  follows := by
    intro i ns j h
    obtain ⟨cs, n, l, rfl, hn, hcs⟩ := gaps_of_sub h
    exact follows_word hn hcs

instance (ps : List Pieces) [Continues p] : Continues (seq (p :: ps)) where
  follows := by
    intro i ns j h
    obtain ⟨l, ms, ls, hp, hs, rfl⟩ := seq_cons_eq_some h
    rw [sourceAll_append, String.toList_append]
    exact (Continues.follows hp).append _

instance : Continues (oneOf []) := ⟨nofun⟩

instance (ps : List Pieces) [Continues p] [Continues (oneOf ps)] : Continues (oneOf (p :: ps)) where
  follows := fun h => (or_eq_some h).elim Continues.follows Continues.follows

/-- `?.` with a bracket after it. -/
theorem follows_optional {n : Node} {cs ms : List Node} (hn : n.Spaced) (ht : n.text = "?.")
    (hcs : ∀ c ∈ cs, c.IsGap) (hms : Breaks (sourceAll ms).toList) :
    Follows (sourceAll (cs ++ [n] ++ ms)).toList := by
  by_cases hne : cs = []
  · obtain ⟨blank, hb, hsource⟩ := hn.source_eq
    rw [hne, List.nil_append, sourceAll_append, sourceAll_singleton, String.toList_append,
      hsource, ht, List.append_assoc]
    exact .optional hb hms
  · rw [List.append_assoc]
    exact .mark (breaks_of_gaps hcs hne _)

/-- An optional `?.`, in whatever role, before pieces that open with a bracket. -/
theorem follows_opt_chain {ps : List Pieces} {c : Reader Node} [StartsBreak (seq ps)]
    (hc : ∀ {i n j}, c i = some (n, j) → n.Spaced ∧ n.text = "?.") {ns : List Node}
    (h : seq (opt (sub c) :: ps) i = some (ns, j)) : Follows (sourceAll ns).toList := by
  obtain ⟨l, ms, ls, hp, hs, rfl⟩ := seq_cons_eq_some h
  rcases or_eq_some hp with hp | hp
  · obtain ⟨cs, n, l', rfl, hn, hcs⟩ := gaps_of_sub hp
    obtain ⟨hspaced, htext⟩ := hc hn
    exact follows_optional hspaced htext hcs (StartsBreak.breaks hs)
  · obtain ⟨rfl, rfl⟩ := pure_eq_some.1 hp
    exact .mark (StartsBreak.breaks hs)

end Reader

end FlowAnalysis.Script
