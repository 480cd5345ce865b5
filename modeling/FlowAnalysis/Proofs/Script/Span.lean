import FlowAnalysis.Proofs.Script.Extent

/-!
# Where the text of a node stands

The text of a script is what comes before a node, the text of the node, and what comes after it, and
the places at which the node starts and ends are those after the first part and after the first two
(`Spans`).  This holds of every node below the root (`ParsedScript.exists_spans`).  A place on the
page is reached by one initial part of a text only (`Point.eq_of_key_advance_eq`), so a part that
leads to the start of a node is the text before it.
-/

namespace FlowAnalysis

namespace Script

namespace Point

/-! ### Places after characters -/

/-- The number of bytes that characters take. -/
def bytes (cs : List Char) : Nat := cs.foldr (fun c n => c.utf8Size + n) 0

theorem bytes_cons (c : Char) (cs : List Char) : bytes (c :: cs) = c.utf8Size + bytes cs := rfl

theorem offset_advance (p : Point) (cs : List Char) :
    (p.advance cs).offset = p.offset + bytes cs := by
  induction cs generalizing p with
  | nil => simp [advance, bytes]
  | cons c cs ih =>
    have hstep : (p.step c).offset = p.offset + c.utf8Size := by
      rw [step]
      split
      · next h => rw [h]; rfl
      · rfl
    show ((p.step c).advance cs).offset = _
    rw [ih, hstep, bytes_cons]
    omega

/-- Characters other than line feeds stay in the row. -/
theorem advance_of_not_mem (p : Point) {cs : List Char} (h : '\n' ∉ cs) :
    p.advance cs = ⟨p.offset + bytes cs, p.row, p.column + bytes cs⟩ := by
  induction cs generalizing p with
  | nil => rfl
  | cons c cs ih =>
    obtain ⟨hc, hcs⟩ := not_or.1 (mt List.mem_cons.2 h)
    have hstep : p.step c = ⟨p.offset + c.utf8Size, p.row, p.column + c.utf8Size⟩ := by
      rw [step, if_neg (Ne.symm hc)]
    show (p.step c).advance cs = _
    rw [ih (p.step c) hcs, hstep, bytes_cons]
    simp only [Nat.add_assoc]

/-- Two initial parts of a text that lead to one place on the page are the same. -/
theorem eq_of_key_advance_eq {p : Point} {as bs cs ds : List Char} (h : as ++ cs = bs ++ ds)
    (hk : (p.advance as).key = (p.advance bs).key) : as = bs := by
  have hlonger : ∀ {xs ms : List Char}, (p.advance xs).key = (p.advance (xs ++ ms)).key →
      ms = [] := by
    intro xs ms hkey
    rw [advance_append] at hkey
    by_contra hne
    exact absurd hkey (key_lt_advance _ hne).ne
  rcases List.append_eq_append_iff.1 h with ⟨ms, rfl, _⟩ | ⟨ms, rfl, _⟩
  · rw [hlonger hk, List.append_nil]
  · rw [hlonger hk.symm, List.append_nil]

end Point

/-! ### Spans -/

/-- A text is what comes before a node, the text of the node and what comes after it, in the places
at which the node starts and ends. -/
structure Spans (source : String) (n : Node) (before after : String) : Prop where
  text : source = before ++ n.text ++ after
  start : n.start = Point.origin.advance before.toList
  stop : n.stop = Point.origin.advance (before ++ n.text).toList

namespace Node

/-- A node stands after the blank text before it. -/
theorem exists_blank_of_laidAt {p : Point} :
    ∀ {n : Node}, LaidAt p n →
      ∃ blank, n.source.toList = blank ++ n.text.toList ∧ n.start = p.advance blank
  | .token k r start blank lexeme, h => ⟨blank.toList, String.toList_append, h.1⟩
  | .branch k r [], h => absurd rfl h.1
  | .branch k r (c :: cs), h => by
    obtain ⟨blank, hsource, hstart⟩ := exists_blank_of_laidAt h.2.2.1
    refine ⟨blank, ?_, hstart⟩
    show (sourceAll (c :: cs)).toList = blank ++ (textAll (c :: cs)).toList
    rw [sourceAll, textAll, String.toList_append, String.toList_append, hsource, List.append_assoc]

/-- One of several siblings is laid after those before it. -/
theorem exists_laidAt_of_mem {p : Point} {cs : List Node} (h : LaidFrom p cs) {c : Node}
    (hc : c ∈ cs) : ∃ as bs, cs = as ++ c :: bs ∧ LaidAt (p.advance (sourceAll as).toList) c := by
  obtain ⟨as, bs, rfl⟩ := List.append_of_mem hc
  exact ⟨as, bs, rfl, (laidFrom_append.1 h).2.1⟩

/-- A node in a tree stands where the characters before it lead to. -/
theorem exists_split_of_laidAt {p : Point} {n d : Node} (h : LaidAt p n) (hd : d ∈ n.descendants) :
    ∃ before after, n.source.toList = before ++ d.text.toList ++ after ∧
      d.start = p.advance before ∧ d.stop = p.advance (before ++ d.text.toList) := by
  rcases mem_descendants.1 hd with rfl | ⟨c, hc, hdc⟩
  · obtain ⟨blank, hsource, hstart⟩ := exists_blank_of_laidAt h
    obtain ⟨_, _, hstop⟩ := placed_of_laidAt h
    refine ⟨blank, [], by rw [hsource, List.append_nil], hstart, ?_⟩
    rw [hstop, hsource]
  · obtain ⟨as, bs, hcs, hlaid⟩ : ∃ as bs, n.children = as ++ c :: bs ∧
        LaidAt (p.advance (sourceAll as).toList) c := by
      cases n with
      | token => cases hc
      | branch k r cs => exact exists_laidAt_of_mem h.2.2 hc
    obtain ⟨before, after, hsource, hstart, hstop⟩ := exists_split_of_laidAt hlaid hdc
    -- What comes before the child comes before everything in it.
    refine ⟨(sourceAll as).toList ++ before, after ++ (sourceAll bs).toList, ?_, ?_, ?_⟩
    · have hn : n.source = sourceAll n.children := by
        cases n with
        | token => cases hc
        | branch => rfl
      rw [hn, hcs, sourceAll_append, sourceAll, String.toList_append, String.toList_append, hsource]
      simp only [List.append_assoc]
    · rw [hstart, ← Point.advance_append]
    · rw [hstop, ← Point.advance_append, List.append_assoc]
termination_by n.size
decreasing_by exact size_lt_of_mem hc

/-- A child of any node of a tree stands below the root. -/
theorem below_of_mem_children {root n c : Node} (hn : n ∈ root.descendants) (hc : c ∈ n.children) :
    c ∈ descendantsAll root.children := by
  rcases mem_descendants.1 hn with rfl | ⟨m, hm, hnm⟩
  · exact mem_descendantsAll.2 ⟨c, hc, self_mem_descendants c⟩
  · exact mem_descendantsAll.2
      ⟨m, hm, mem_descendants_trans hnm (mem_descendants_of_mem_children hc)⟩

end Node

open Node in
/-- Everything below the root of a script spans a part of its text. -/
theorem exists_spans_of_below {source : String} {s : Script} (h : parse? source = some s) {d : Node}
    (hd : d ∈ descendantsAll s.root.children) : ∃ before after, Spans source d before after := by
  obtain ⟨cs, start, blank, hroot, hsource, hlaid, hstart⟩ := parse?_laid h
  rw [hroot] at hd
  obtain ⟨c, hc, hdc⟩ := mem_descendantsAll.1 hd
  rcases List.mem_append.1 hc with hc | hc
  · obtain ⟨as, bs, rfl, hlaidc⟩ := exists_laidAt_of_mem hlaid hc
    obtain ⟨before, after, hsplit, hs, ht⟩ := exists_split_of_laidAt hlaidc hdc
    refine ⟨sourceAll as ++ String.ofList before, String.ofList after ++ sourceAll bs ++ blank,
      ?_, ?_, ?_⟩
    · rw [hsource, ← String.toList_inj, sourceAll_append, sourceAll]
      simp only [String.toList_append, String.toList_ofList, hsplit, List.append_assoc]
    · rw [hs, ← Point.advance_append, String.toList_append, String.toList_ofList]
    · rw [ht, ← Point.advance_append, String.toList_append, String.toList_append,
        String.toList_ofList, List.append_assoc]
  · -- The mark at the end stands after the whole text.
    obtain rfl := List.mem_singleton.1 hc
    obtain rfl : d = .token .anonymous none start blank "" := List.mem_singleton.1 hdc
    have htext : (Node.token Kind.anonymous none start blank "").text = "" := rfl
    refine ⟨source, "", ?_, hstart, ?_⟩
    · rw [htext, String.append_empty, String.append_empty]
    · rw [htext, String.append_empty, ← hstart]
      rfl

end Script

/-- A child of a node of a script spans a part of its text. -/
theorem ParsedScript.exists_spans {source : String} {p : ParsedScript} (h : parse? source = some p)
    {n c : Script.Node} (hn : n ∈ p.root.descendants) (hc : c ∈ n.children) :
    ∃ before after, Script.Spans source c before after := by
  obtain ⟨s, hs, rfl⟩ := Option.map_eq_some_iff.1 h
  exact Script.exists_spans_of_below hs (Script.Node.below_of_mem_children hn hc)

end FlowAnalysis
