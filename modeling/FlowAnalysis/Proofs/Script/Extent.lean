import FlowAnalysis.Location
import FlowAnalysis.Proofs.Script.Grammar
import FlowAnalysis.Script.Parsed
import Mathlib.Data.Prod.Lex
import Mathlib.Data.List.Pairwise

/-!
# Where the nodes of a script stand

Places are compared on the page, by row and then by column (`Point.key`).  In a tree whose siblings
stand one after the other (`InOrder`) every node lies within its parent, and of two nodes one is
below the other or they are apart (`InOrder.pairwise_descendants`).  The tokens of a script stand
one after the other, so its nodes are in order, and each has an extent of its own with characters in
it (`Placed`); this holds of every script that can be read (`parse?_root`).
-/

namespace FlowAnalysis.Script

/-! ### Places -/

namespace Point

/-- A place on the page, in the order of rows and then of columns. -/
def key (p : Point) : ℕ ×ₗ ℕ := toLex (p.row, p.column)

theorem key_lt_iff {p q : Point} :
    p.key < q.key ↔ p.row < q.row ∨ p.row = q.row ∧ p.column < q.column :=
  Prod.Lex.toLex_lt_toLex

theorem key_eq_iff {p q : Point} : p.key = q.key ↔ p.row = q.row ∧ p.column = q.column := by
  rw [key, key, toLex_inj, Prod.mk.injEq]

theorem row_le_of_key_le {p q : Point} (h : p.key ≤ q.key) : p.row ≤ q.row := by
  rcases h.lt_or_eq with h | h
  · exact (key_lt_iff.1 h).elim Nat.le_of_lt fun h => h.1.le
  · exact (key_eq_iff.1 h).1.le

theorem key_lt_step (p : Point) (c : Char) : p.key < (p.step c).key := by
  have hsize := c.utf8Size_pos
  rw [key_lt_iff, step]
  split
  · exact .inl (Nat.lt_succ_self _)
  · exact .inr ⟨rfl, Nat.lt_add_of_pos_right hsize⟩

theorem key_le_advance (p : Point) (cs : List Char) : p.key ≤ (p.advance cs).key := by
  induction cs generalizing p with
  | nil => exact le_refl _
  | cons c cs ih => exact (key_lt_step p c).le.trans (ih (p.step c))

theorem key_lt_advance (p : Point) {cs : List Char} (h : cs ≠ []) :
    p.key < (p.advance cs).key := by
  cases cs with
  | nil => exact absurd rfl h
  | cons c cs => exact (key_lt_step p c).trans_le (key_le_advance (p.step c) cs)

end Point

namespace Node

/-! ### Nodes beside and below each other -/

/-- One node ends before another starts. -/
def Before (a b : Node) : Prop := a.stop.key ≤ b.start.key

/-- Two nodes have nothing in common. -/
def Apart (a b : Node) : Prop := Before a b ∨ Before b a

/-- One node lies in the extent of another. -/
structure Within (a b : Node) : Prop where
  start : b.start.key ≤ a.start.key
  stop : a.stop.key ≤ b.stop.key

theorem Within.refl (a : Node) : Within a a := ⟨le_refl _, le_refl _⟩

theorem Within.trans {a b c : Node} (h : Within a b) (h' : Within b c) : Within a c :=
  ⟨h'.start.trans h.start, h.stop.trans h'.stop⟩

theorem Before.mono {a b a' b' : Node} (h : Before a b) (ha : Within a' a) (hb : Within b' b) :
    Before a' b' :=
  ha.stop.trans (le_trans h hb.start)

theorem Apart.mono {a b a' b' : Node} (h : Apart a b) (ha : Within a' a) (hb : Within b' b) :
    Apart a' b' :=
  h.imp (·.mono ha hb) (·.mono hb ha)

/-- Two different members of a list are related one way or the other when earlier members
are related to later ones. -/
theorem or_of_pairwise {α : Type} {R : α → α → Prop} {l : List α} (h : l.Pairwise R) {a b : α}
    (ha : a ∈ l) (hb : b ∈ l) (hne : a ≠ b) : R a b ∨ R b a := by
  have hsymm : Std.Symm fun a b => R a b ∨ R b a := ⟨fun _ _ h => h.symm⟩
  have hor : l.Pairwise fun a b => R a b ∨ R b a := h.imp Or.inl
  exact hor.forall ha hb hne

/-- Of nodes that stand one after the other, two that differ are apart. -/
theorem apart_of_ne {cs : List Node} (ordered : cs.Pairwise Before) {c d : Node} (hc : c ∈ cs)
    (hd : d ∈ cs) (hne : c ≠ d) : Apart c d :=
  or_of_pairwise ordered hc hd hne

/-! ### Descendants -/

theorem descendants_eq (n : Node) : n.descendants = n :: descendantsAll n.children := by
  cases n with
  | token => rfl
  | branch => rfl

theorem descendantsAll_eq_flatMap (cs : List Node) :
    descendantsAll cs = cs.flatMap descendants := by
  induction cs with
  | nil => rfl
  | cons c cs ih => rw [descendantsAll, List.flatMap_cons, ih]

theorem mem_descendantsAll {cs : List Node} {d : Node} :
    d ∈ descendantsAll cs ↔ ∃ c ∈ cs, d ∈ c.descendants := by
  rw [descendantsAll_eq_flatMap, List.mem_flatMap]

theorem mem_descendants {n d : Node} :
    d ∈ n.descendants ↔ d = n ∨ ∃ c ∈ n.children, d ∈ c.descendants := by
  rw [descendants_eq, List.mem_cons, mem_descendantsAll]

theorem self_mem_descendants (n : Node) : n ∈ n.descendants := mem_descendants.2 (.inl rfl)

theorem mem_descendants_of_below {n d : Node} (h : d ∈ descendantsAll n.children) :
    d ∈ n.descendants := by
  rw [descendants_eq]
  exact List.mem_cons_of_mem n h

theorem mem_descendants_of_mem_children {n c : Node} (h : c ∈ n.children) : c ∈ n.descendants :=
  mem_descendants.2 (.inr ⟨c, h, self_mem_descendants c⟩)

theorem mem_descendants_trans {n d e : Node} (hd : d ∈ n.descendants) (he : e ∈ d.descendants) :
    e ∈ n.descendants := by
  rcases mem_descendants.1 hd with rfl | ⟨c, hc, hdc⟩
  · exact he
  · exact mem_descendants.2 (.inr ⟨c, hc, mem_descendants_trans hdc he⟩)
termination_by n.size
decreasing_by exact size_lt_of_mem hc

theorem size_le_of_mem_descendants {n d : Node} (h : d ∈ n.descendants) : d.size ≤ n.size := by
  rcases mem_descendants.1 h with rfl | ⟨c, hc, hdc⟩
  · exact le_refl _
  · exact (size_le_of_mem_descendants hdc).trans (size_lt_of_mem hc).le
termination_by n.size
decreasing_by exact size_lt_of_mem hc

/-- What is below a node is smaller than the node. -/
theorem size_lt_of_below {n d : Node} (h : d ∈ descendantsAll n.children) : d.size < n.size := by
  obtain ⟨c, hc, hdc⟩ := mem_descendantsAll.1 h
  exact (size_le_of_mem_descendants hdc).trans_lt (size_lt_of_mem hc)

/-! ### Trees whose siblings stand in order -/

/-- A run of siblings starts no later than any of them. -/
theorem startFirst_le {cs : List Node} (ordered : cs.Pairwise Before)
    (upright : ∀ c ∈ cs, c.start.key ≤ c.stop.key) {c : Node} (hc : c ∈ cs) :
    (startFirst cs).key ≤ c.start.key := by
  cases cs with
  | nil => cases hc
  | cons d ds =>
    rw [startFirst]
    rcases List.mem_cons.1 hc with rfl | hc
    · exact le_refl _
    · have hbefore : Before d c := (List.pairwise_cons.1 ordered).1 c hc
      exact (upright d List.mem_cons_self).trans hbefore

/-- A run of siblings ends no earlier than any of them. -/
theorem le_stopLast {cs : List Node} (ordered : cs.Pairwise Before)
    (upright : ∀ c ∈ cs, c.start.key ≤ c.stop.key) {c : Node} (hc : c ∈ cs) :
    c.stop.key ≤ (stopLast cs).key := by
  induction cs generalizing c with
  | nil => cases hc
  | cons d ds ih =>
    obtain ⟨hd, hds⟩ := List.pairwise_cons.1 ordered
    cases ds with
    | nil =>
      obtain rfl := List.mem_singleton.1 hc
      exact le_refl _
    | cons e es =>
      rw [stopLast]
      -- The last sibling ends the run, so the first one ends before some later one.
      have later := fun {c} => @ih hds (fun c hc => upright c (List.mem_cons_of_mem _ hc)) c
      rcases List.mem_cons.1 hc with rfl | hc
      · have hbefore : Before c e := hd e List.mem_cons_self
        have he : e.start.key ≤ e.stop.key := upright e (by simp)
        exact hbefore.trans (he.trans (later List.mem_cons_self))
      · exact later hc

/-- Everywhere in a tree, siblings stand one after the other. -/
def InOrder (n : Node) : Prop := ∀ d ∈ n.descendants, d.children.Pairwise Before

namespace InOrder

theorem of_mem_descendants {n d : Node} (h : InOrder n) (hd : d ∈ n.descendants) : InOrder d :=
  fun e he => h e (mem_descendants_trans hd he)

theorem of_mem_children {n c : Node} (h : InOrder n) (hc : c ∈ n.children) : InOrder c :=
  h.of_mem_descendants (mem_descendants_of_mem_children hc)

theorem ordered {n : Node} (h : InOrder n) : n.children.Pairwise Before :=
  h n (self_mem_descendants n)

/-- No node ends before it starts. -/
theorem start_le_stop {n : Node} (h : InOrder n) : n.start.key ≤ n.stop.key := by
  have upright : ∀ c ∈ n.children, c.start.key ≤ c.stop.key := fun c hc =>
    (h.of_mem_children hc).start_le_stop
  cases n with
  | token k r p blank lexeme => exact Point.key_le_advance p lexeme.toList
  | branch k r cs =>
    cases cs with
    | nil => exact le_refl _
    | cons c cs =>
      calc c.start.key ≤ c.stop.key := upright c List.mem_cons_self
        _ ≤ (stopLast (c :: cs)).key := le_stopLast h.ordered upright List.mem_cons_self
termination_by n.size
decreasing_by exact size_lt_of_mem hc

theorem within_of_mem_children {n c : Node} (h : InOrder n) (hc : c ∈ n.children) :
    Within c n := by
  have upright : ∀ d ∈ n.children, d.start.key ≤ d.stop.key := fun d hd =>
    (h.of_mem_children hd).start_le_stop
  cases n with
  | token => cases hc
  | branch k r cs =>
    exact ⟨startFirst_le h.ordered upright hc, le_stopLast h.ordered upright hc⟩

theorem within_of_mem_descendants {n d : Node} (h : InOrder n) (hd : d ∈ n.descendants) :
    Within d n := by
  rcases mem_descendants.1 hd with rfl | ⟨c, hc, hdc⟩
  · exact .refl d
  · have hwithin : Within d c := (h.of_mem_children hc).within_of_mem_descendants hdc
    exact hwithin.trans (h.within_of_mem_children hc)
termination_by n.size
decreasing_by exact size_lt_of_mem hc

/-- Of two nodes of a tree, parents first, the later one is below the
earlier one or comes after it. -/
theorem pairwise_descendants {n : Node} (h : InOrder n) :
    n.descendants.Pairwise fun a b => b ∈ descendantsAll a.children ∨ Before a b := by
  rw [descendants_eq, List.pairwise_cons]
  refine ⟨fun b hb => .inl hb, ?_⟩
  rw [descendantsAll_eq_flatMap, List.pairwise_flatMap]
  refine ⟨fun c hc => (h.of_mem_children hc).pairwise_descendants, ?_⟩
  -- What is below two siblings lies within them, and so stands as they do.
  refine h.ordered.imp_of_mem fun {c d} hc hd hcd a ha b hb => .inr (hcd.mono ?_ ?_)
  · exact (h.of_mem_children hc).within_of_mem_descendants ha
  · exact (h.of_mem_children hd).within_of_mem_descendants hb
termination_by n.size
decreasing_by exact size_lt_of_mem hc

end InOrder

/-! ### Nodes with an extent of their own -/

/-- A node with an extent of its own: every token in it has characters and is of a kind
without a fixed shape, and the children of every branch stand one after the other and
have the shape of its kind. -/
inductive Placed : Node → Prop
  | token {k : Kind} {r : Option Role} {p : Point} {blank lexeme : String}
      (h : p.key < (p.advance lexeme.toList).key) (free : k.isFree = true) :
      Placed (.token k r p blank lexeme)
  | branch {k : Kind} {r : Option Role} {cs : List Node} (ne_nil : cs ≠ []) (shaped : Shaped k cs)
      (ordered : cs.Pairwise Before) (children : ∀ c ∈ cs, Placed c) : Placed (.branch k r cs)

namespace Placed

variable {n c d : Node}

/-- A node has characters. -/
theorem start_lt_stop (h : Placed n) : n.start.key < n.stop.key := by
  induction h with
  | token h _ => exact h
  | @branch k r cs ne_nil shaped ordered children ih =>
    obtain ⟨c, hc⟩ := List.exists_mem_of_ne_nil cs ne_nil
    have upright : ∀ c ∈ cs, c.start.key ≤ c.stop.key := fun c hc => (ih c hc).le
    calc (startFirst cs).key ≤ c.start.key := startFirst_le ordered upright hc
      _ < c.stop.key := ih c hc
      _ ≤ (stopLast cs).key := le_stopLast ordered upright hc

theorem text_ne_empty (h : Placed n) : n.text ≠ "" := by
  induction h with
  | token h _ =>
    intro htext
    rw [text] at htext
    rw [htext] at h
    exact lt_irrefl _ h
  | @branch k r cs ne_nil _ _ _ ih =>
    cases cs with
    | nil => exact absurd rfl ne_nil
    | cons c cs =>
      intro htext
      rw [text, textAll, String.append_eq_empty_iff] at htext
      exact ih c List.mem_cons_self htext.1

/-- Two nodes that are apart start at different places. -/
theorem start_ne_of_apart (hn : Placed n) (hd : Placed d) (h : Apart n d) :
    n.start.key ≠ d.start.key := by
  rcases h with h | h
  · exact (hn.start_lt_stop.trans_le h).ne
  · exact (hd.start_lt_stop.trans_le h).ne'

theorem of_mem_children (h : Placed n) (hc : c ∈ n.children) : Placed c := by
  cases h with
  | token => cases hc
  | branch _ _ _ children => exact children c hc

theorem ordered (h : Placed n) : n.children.Pairwise Before := by
  cases h with
  | token => exact List.Pairwise.nil
  | branch _ _ ordered _ => exact ordered

theorem shaped (h : Placed n) (hn : n.children ≠ []) : Shaped n.kind n.children := by
  cases h with
  | token => exact absurd rfl hn
  | branch _ shaped _ _ => exact shaped

/-- A node of a kind with a fixed shape is a branch. -/
theorem children_ne_nil (h : Placed n) (hk : n.kind.isFree = false) : n.children ≠ [] := by
  cases h with
  | token _ free => exact absurd (free.symm.trans hk) Bool.noConfusion
  | branch ne_nil _ _ _ => exact ne_nil

theorem of_mem_descendants {n d : Node} (h : Placed n) (hd : d ∈ n.descendants) : Placed d := by
  rcases mem_descendants.1 hd with rfl | ⟨c, hc, hdc⟩
  · exact h
  · exact of_mem_descendants (h.of_mem_children hc) hdc
termination_by n.size
decreasing_by exact size_lt_of_mem hc

theorem inOrder (h : Placed n) : InOrder n := fun _ hd => (h.of_mem_descendants hd).ordered

theorem within_of_mem_children (h : Placed n) (hc : c ∈ n.children) : Within c n :=
  h.inOrder.within_of_mem_children hc

theorem within_of_mem_descendants (h : Placed n) (hd : d ∈ n.descendants) : Within d n :=
  h.inOrder.within_of_mem_descendants hd

end Placed

/-! ### Scripts -/

/-- The root of a script: what it holds stands one after the other, and ends with a mark that has no
characters. -/
structure IsRoot (root : Node) : Prop where
  kind : root.kind = .program
  ordered : root.children.Pairwise Before
  children : ∀ c ∈ root.children, Placed c ∨ c.kind = .anonymous ∧ c.children = []

namespace IsRoot

variable {root c d : Node}

/-- A node of a script is the whole, has an extent of its own or is the mark at the end. -/
theorem eq_or_placed_or_mark (h : IsRoot root) (hd : d ∈ root.descendants) :
    d = root ∨ Placed d ∨ d.kind = .anonymous ∧ d.children = [] := by
  rcases mem_descendants.1 hd with rfl | ⟨c, hc, hdc⟩
  · exact .inl rfl
  · rcases h.children c hc with hp | ⟨ha, hm⟩
    · exact .inr (.inl (hp.of_mem_descendants hdc))
    · rw [descendants_eq, hm] at hdc
      obtain rfl := List.mem_singleton.1 hdc
      exact .inr (.inr ⟨ha, hm⟩)

/-- A node of a script other than the whole and the mark at its end has an extent of its own. -/
theorem placed (h : IsRoot root) (hd : d ∈ root.descendants) (hk : d.kind ≠ .program)
    (hn : d.kind ≠ .anonymous) : Placed d := by
  rcases h.eq_or_placed_or_mark hd with rfl | hp | ⟨ha, -⟩
  · exact absurd h.kind hk
  · exact hp
  · exact absurd ha hn

/-- The siblings of a script stand one after the other. -/
theorem inOrder (h : IsRoot root) : InOrder root := by
  intro d hd
  rcases h.eq_or_placed_or_mark hd with rfl | hp | ⟨-, hm⟩
  · exact h.ordered
  · exact hp.ordered
  · rw [hm]
    exact .nil

end IsRoot

mutual

/-- A node laid at a place has an extent of its own, from there on. -/
theorem placed_of_laidAt {p : Point} :
    ∀ {n : Node}, LaidAt p n →
      Placed n ∧ p.key ≤ n.start.key ∧ n.stop = p.advance n.source.toList
  | .token k r start blank lexeme, h => by
    obtain ⟨rfl, hne, hfree⟩ := h
    refine ⟨.token (Point.key_lt_advance _ hne) hfree, Point.key_le_advance p _, ?_⟩
    rw [source_token, String.toList_append, Point.advance_append]
    rfl
  | .branch k r cs, h => by
    obtain ⟨hne, hshaped, hcs⟩ := h
    obtain ⟨hplaced, hordered, hstart, hstop⟩ := placed_of_laidFrom hcs
    cases cs with
    | nil => exact absurd rfl hne
    | cons c cs =>
      exact ⟨.branch hne hshaped hordered hplaced, hstart c List.mem_cons_self,
        hstop hne⟩

/-- Siblings laid from a place have extents of their own, one after the other. -/
theorem placed_of_laidFrom {p : Point} :
    ∀ {cs : List Node}, LaidFrom p cs →
      (∀ c ∈ cs, Placed c) ∧ cs.Pairwise Before ∧ (∀ c ∈ cs, p.key ≤ c.start.key) ∧
        (cs ≠ [] → stopLast cs = p.advance (sourceAll cs).toList)
  | [], _ => by simp
  | c :: cs, h => by
    obtain ⟨hc, hcs⟩ := h
    obtain ⟨hplaced, hstart, hstop⟩ := placed_of_laidAt hc
    obtain ⟨hplaceds, hordered, hstarts, hstops⟩ := placed_of_laidFrom hcs
    rw [← hstop] at hstarts
    refine ⟨?_, List.pairwise_cons.2 ⟨hstarts, hordered⟩, ?_, fun _ => ?_⟩
    · exact List.forall_mem_cons.2 ⟨hplaced, hplaceds⟩
    · refine List.forall_mem_cons.2 ⟨hstart, fun d hd => ?_⟩
      exact hstart.trans (hplaced.start_lt_stop.le.trans (hstarts d hd))
    · rw [sourceAll, String.toList_append, Point.advance_append]
      cases cs with
      | nil => exact hstop
      | cons d ds => exact hstops (by simp)

end

end Node

open Node in
/-- The root of a script that can be read. -/
theorem parse?_root {source : String} {s : Script} (h : parse? source = some s) :
    s.root.IsRoot := by
  obtain ⟨cs, start, blank, hroot, hsource, hlaid, rfl⟩ := parse?_laid h
  obtain ⟨hplaced, hordered, -, hstop⟩ := placed_of_laidFrom hlaid
  rw [hroot]
  refine ⟨rfl, List.pairwise_append.2 ⟨hordered, List.pairwise_singleton _ _, ?_⟩, ?_⟩
  · -- The mark at the end stands after the blank text that follows the last node.
    intro c hc e he
    obtain rfl := List.mem_singleton.1 he
    have hle : c.stop.key ≤ (stopLast cs).key :=
      le_stopLast hordered (fun c hc => (hplaced c hc).start_lt_stop.le) hc
    rw [hstop (List.ne_nil_of_mem hc)] at hle
    refine hle.trans ?_
    show _ ≤ (Point.origin.advance source.toList).key
    rw [hsource, String.toList_append, Point.advance_append]
    exact Point.key_le_advance _ _
  · intro c hc
    rcases List.mem_append.1 hc with hc | hc
    · exact .inl (hplaced c hc)
    · obtain rfl := List.mem_singleton.1 hc
      exact .inr ⟨rfl, rfl⟩

end FlowAnalysis.Script

/-! ### Locations -/

namespace FlowAnalysis

namespace Location

/-- Where a span starts, in the order of the text. -/
def startKey (l : Location) : ℕ ×ₗ ℕ := toLex (l.startLine, l.startCol)

theorem startsBefore_iff {l m : Location} : l.startsBefore m = true ↔ l.startKey < m.startKey := by
  rw [startKey, startKey, Prod.Lex.toLex_lt_toLex, startsBefore]
  simp

theorem startKey_eq_iff {l m : Location} :
    l.startKey = m.startKey ↔ l.startLine = m.startLine ∧ l.startCol = m.startCol := by
  rw [startKey, startKey, toLex_inj, Prod.mk.injEq]

end Location

namespace Script.Node

/-- The location of a node encloses that of another when the other lies within it. -/
theorem encloses_location_iff {n m : Node} :
    n.location.encloses m.location = true ↔ Within m n := by
  have hnotAfter : ∀ p q : Point,
      Location.notAfter (p.row + 1) p.column (q.row + 1) q.column = true ↔ p.key ≤ q.key := by
    intro p q
    rw [Location.notAfter, Point.key, Point.key, Prod.Lex.toLex_le_toLex]
    simp
  rw [Location.encloses, Bool.and_eq_true]
  constructor
  · rintro ⟨hstart, hstop⟩
    exact ⟨(hnotAfter _ _).1 hstart, (hnotAfter _ _).1 hstop⟩
  · rintro ⟨hstart, hstop⟩
    exact ⟨(hnotAfter _ _).2 hstart, (hnotAfter _ _).2 hstop⟩

theorem startKey_lt_iff {n m : Node} :
    n.location.startKey < m.location.startKey ↔ n.start.key < m.start.key := by
  rw [Location.startKey, Location.startKey, Prod.Lex.toLex_lt_toLex, Point.key_lt_iff]
  simp [Node.location]

theorem startKey_eq_iff {n m : Node} :
    n.location.startKey = m.location.startKey ↔ n.start.key = m.start.key := by
  rw [Location.startKey_eq_iff, Point.key_eq_iff]
  simp [Node.location]

/-- Nodes with one location start and stop together. -/
theorem key_eq_of_location_eq {n m : Node} (h : n.location = m.location) :
    n.start.key = m.start.key ∧ n.stop.key = m.stop.key := by
  refine ⟨startKey_eq_iff.1 (congrArg Location.startKey h), Point.key_eq_iff.2 ⟨?_, ?_⟩⟩
  · exact Nat.succ.inj (congrArg Location.endLine h)
  · exact congrArg Location.endCol h

end Script.Node

theorem ParsedScript.isRoot_of_parse? {source : String} {p : ParsedScript}
    (h : ParsedScript.parse? source = some p) : p.root.IsRoot := by
  obtain ⟨s, hs, rfl⟩ := Option.map_eq_some_iff.1 h
  exact Script.parse?_root hs

theorem ParsedScript.inOrder_of_parse? {source : String} {p : ParsedScript}
    (h : ParsedScript.parse? source = some p) : p.root.InOrder :=
  (isRoot_of_parse? h).inOrder

end FlowAnalysis
