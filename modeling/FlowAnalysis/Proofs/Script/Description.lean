import FlowAnalysis.Proofs.Script.Extent
import FlowAnalysis.Script.Comment

/-!
# Which comments describe an item

The text above an item is made of the words of the comments that describe it
(`above_eq_describing`).  A comment describes an item when it has words, when only comments and
separators stand between the two, with no blank line among them (`Adjoins`), and when it is not
taken for a comment on the item before it.

A comment trails an item when it starts on the row on which the item ends (`Trails`).  The search
for such an item stops at the nearest sibling that is not a separator, also when that is another
comment.  So a trailing comment describes the next item after all when it comes second or later on
its row (`FollowsComment`), and only then: this holds in every tree whose siblings stand in order
(`mem_describing_iff_of_trails`), and so of every script (`trailing_comment_describes_iff`).
-/

namespace FlowAnalysis.Script

open Node

/-! ### Places of nodes among their siblings -/

/-- The levels above a node lead to the root of a tree: at each level the node is a child of its
parent, behind the siblings before it. -/
inductive Cursor.Under (root : Node) : Node → List Frame → Prop
  | root : Under root root []
  | child {n : Node} {f : Frame} {fs : List Frame} {after : List Node}
      (children : f.parent.children = f.before.reverse ++ n :: after)
      (parent : Under root f.parent fs) : Under root n (f :: fs)

namespace Cursor

theorem below_eq (n : Node) (above : List Frame) :
    below above n = ⟨n, above⟩ :: belowAll n [] above n.children := by
  cases n with
  | token => rfl
  | branch => rfl

/-- A cursor below siblings is below one of them. -/
theorem exists_of_mem_belowAll {parent : Node} {above : List Frame} {c : Cursor}
    {before cs : List Node} (h : c ∈ belowAll parent before above cs) :
    ∃ as d bs, cs = as ++ d :: bs ∧ c ∈ below (⟨parent, as.reverse ++ before⟩ :: above) d := by
  induction cs generalizing before with
  | nil => exact absurd h List.not_mem_nil
  | cons d ds ih =>
    rw [belowAll] at h
    rcases List.mem_append.1 h with h | h
    · exact ⟨[], d, ds, rfl, h⟩
    · obtain ⟨as, e, bs, rfl, he⟩ := ih h
      refine ⟨d :: as, e, bs, rfl, ?_⟩
      rwa [List.reverse_cons, List.append_assoc, List.singleton_append]

theorem under_of_mem_below {root n : Node} {above : List Frame} (h : Under root n above)
    {c : Cursor} (hc : c ∈ below above n) : Under root c.node c.above := by
  rw [below_eq] at hc
  rcases List.mem_cons.1 hc with rfl | hc
  · exact h
  · obtain ⟨as, d, bs, hchildren, hd⟩ := exists_of_mem_belowAll hc
    have hlt : d.size < n.size := size_lt_of_mem (by rw [hchildren]; simp)
    rw [List.append_nil] at hd
    exact under_of_mem_below (.child (by rw [hchildren, List.reverse_reverse]) h) hd
termination_by n.size

theorem under_of_mem_everywhere {root : Node} {c : Cursor} (h : c ∈ everywhere root) :
    Under root c.node c.above :=
  under_of_mem_below .root h

theorem Under.mem_descendants {root n : Node} {fs : List Frame} (h : Under root n fs) :
    n ∈ root.descendants := by
  induction h with
  | root => exact self_mem_descendants root
  | child children _ ih =>
    refine mem_descendants_trans ih (mem_descendants_of_mem_children ?_)
    rw [children]
    simp

end Cursor

namespace Comment

/-! ### What the notions say -/

/-- A node stands in an item of a list: the item is the node itself, or
around it and in no list below. -/
inductive InItem (item : Node) (f : Frame) : Node → List Frame → Prop
  | self {fs : List Frame} (list : isList f.parent.kind) : InItem item f item (f :: fs)
  | inner {n : Node} {g : Frame} {fs : List Frame} (free : ¬ isList g.parent.kind)
      (around : InItem item f g.parent fs) : InItem item f n (g :: fs)

/-- The comments whose words describe an item with the given siblings before it,
in the order of the script. -/
def describing (item : Node) (before : List Node) : List Node :=
  (run item.start.row before).reverse.filter fun c => !(clean c.text).isEmpty

/-- Among the siblings before a comment is an item that ends on the row on
which the comment starts. -/
def Trails (n : Node) (before : List Node) : Prop :=
  ∃ m ∈ before, m.isNamed ∧ ¬ m.isComment ∧ m.stop.row = n.start.row

/-- The nearest sibling that is not a separator is a comment. -/
def FollowsComment (before : List Node) : Prop :=
  ∃ near m far, before = near ++ m :: far ∧ m.isComment ∧ ∀ d ∈ near, ¬ d.isNamed

/-- Between a comment and an item below it are only comments and separators, and no blank line. -/
structure Adjoins (n : Node) (near : List Node) (item : Node) : Prop where
  comments : ∀ m ∈ near, m.isNamed → m.isComment
  close : List.IsChain (fun lower upper => lower.start.row ≤ upper.stop.row + 1)
    (item :: (near.filter (·.isNamed) ++ [n]))

/-- Siblings, nearest first, none of which starts above the end of the next. -/
structure Stacked (ns : List Node) : Prop where
  ordered : ns.Pairwise fun a b => b.stop.row ≤ a.start.row
  upright : ∀ n ∈ ns, n.start.row ≤ n.stop.row

theorem Stacked.sublist {ms ns : List Node} (h : Stacked ns) (hs : ms.Sublist ns) : Stacked ms :=
  ⟨h.ordered.sublist hs, fun n hn => h.upright n (hs.subset hn)⟩

/-! ### The two loops -/

variable {n p item : Node} {near far rest : List Node}

theorem isNamed_of_isComment (h : n.isComment) : n.isNamed := by
  have hk : n.kind = .comment := by simpa [isComment] using h
  simp [isNamed, hk]

theorem followsComment_cons_of_isNamed (hp : p.isNamed) :
    FollowsComment (p :: rest) ↔ p.isComment := by
  constructor
  · rintro ⟨near, m, far, heq, hm, hnear⟩
    cases near with
    | nil =>
      obtain ⟨rfl, -⟩ := List.cons.inj heq
      exact hm
    | cons d ds =>
      obtain ⟨rfl, -⟩ := List.cons.inj heq
      exact absurd hp (hnear p (List.mem_cons_self ..))
  · exact fun h => ⟨[], p, rest, rfl, h, fun _ hd => absurd hd List.not_mem_nil⟩

theorem followsComment_cons_of_not_isNamed (hp : ¬ p.isNamed) :
    FollowsComment (p :: rest) ↔ FollowsComment rest := by
  constructor
  · rintro ⟨near, m, far, heq, hm, hnear⟩
    cases near with
    | nil =>
      obtain ⟨rfl, -⟩ := List.cons.inj heq
      exact absurd (isNamed_of_isComment hm) hp
    | cons d ds =>
      obtain ⟨-, rfl⟩ := List.cons.inj heq
      exact ⟨ds, m, far, rfl, hm, fun e he => hnear e (List.mem_cons_of_mem d he)⟩
  · rintro ⟨near, m, far, rfl, hm, hnear⟩
    refine ⟨p :: near, m, far, rfl, hm, fun d hd => ?_⟩
    rcases List.mem_cons.1 hd with rfl | hd
    · exact hp
    · exact hnear d hd

/-- Behind comments and separators that follow a comment stands a comment. -/
theorem followsComment_append (hn : n.isComment) (hnear : ∀ m ∈ near, m.isNamed → m.isComment) :
    FollowsComment (near ++ n :: far) := by
  induction near with
  | nil => exact (followsComment_cons_of_isNamed (isNamed_of_isComment hn)).2 hn
  | cons p near ih =>
    by_cases hp : p.isNamed
    · exact (followsComment_cons_of_isNamed hp).2 (hnear p (List.mem_cons_self ..) hp)
    · exact (followsComment_cons_of_not_isNamed hp).2
        (ih fun m hm => hnear m (List.mem_cons_of_mem p hm))

theorem trails_cons : Trails n (p :: rest) ↔
    (p.isNamed ∧ ¬ p.isComment ∧ p.stop.row = n.start.row) ∨ Trails n rest := by
  simp only [Trails, List.mem_cons, or_and_right, exists_or, exists_eq_left]

/-- The inner loop takes a comment for a trailing one unless it trails nothing
or follows another comment. -/
theorem isTrailing_eq_false_iff (h : Stacked (n :: far)) :
    isTrailing n far = false ↔ (Trails n far → FollowsComment far) := by
  induction far with
  | nil => simp [isTrailing, Trails]
  | cons p rest ih =>
    have hrest : Stacked (n :: rest) := h.sublist ((List.sublist_cons_self p rest).cons_cons n)
    have hpn : p.stop.row ≤ n.start.row :=
      List.rel_of_pairwise_cons h.ordered (List.mem_cons_self ..)
    have hp : p.start.row ≤ p.stop.row := h.upright p (by simp)
    -- An item further up that ends on the row of the comment leaves the
    -- nearer sibling no other row.
    have hrow : Trails n rest → p.stop.row = n.start.row := by
      rintro ⟨m, hm, -, -, heq⟩
      have := List.rel_of_pairwise_cons h.ordered.of_cons hm
      omega
    rw [isTrailing]
    by_cases hnamed : p.isNamed
    · rw [if_pos hnamed, followsComment_cons_of_isNamed hnamed]
      by_cases hcomment : p.isComment
      · simp [hcomment]
      · have htrails : Trails n (p :: rest) ↔ p.stop.row = n.start.row := by
          rw [trails_cons]
          exact ⟨fun h => h.elim (fun h => h.2.2) hrow, fun heq => .inl ⟨hnamed, hcomment, heq⟩⟩
        simp [hcomment, htrails]
    · have htrails : Trails n (p :: rest) ↔ Trails n rest := by
        rw [trails_cons, or_iff_right fun h => hnamed h.1]
      rw [if_neg hnamed, followsComment_cons_of_not_isNamed hnamed, htrails]
      split
      · next hne =>
        have hno : ¬ Trails n rest := fun ht => by simp [hrow ht] at hne
        simp [hno]
      · exact ih hrest

theorem adjoins_cons_of_not_isNamed (hp : ¬ p.isNamed) :
    Adjoins n (p :: near) item ↔ Adjoins n near item := by
  have hfilter : (p :: near).filter (·.isNamed) = near.filter (·.isNamed) :=
    List.filter_cons_of_neg hp
  constructor
  · exact fun ⟨hc, hr⟩ => ⟨fun m hm => hc m (List.mem_cons_of_mem p hm), hfilter ▸ hr⟩
  · refine fun ⟨hc, hr⟩ => ⟨fun m hm hnamed => ?_, hfilter ▸ hr⟩
    rcases List.mem_cons.1 hm with rfl | hm
    · exact absurd hnamed hp
    · exact hc m hm hnamed

theorem adjoins_cons_of_isNamed (hp : p.isNamed) :
    Adjoins n (p :: near) item ↔
      p.isComment ∧ item.start.row ≤ p.stop.row + 1 ∧ Adjoins n near p := by
  have hfilter : (p :: near).filter (·.isNamed) = p :: near.filter (·.isNamed) :=
    List.filter_cons_of_pos hp
  constructor
  · rintro ⟨hc, hr⟩
    rw [hfilter, List.cons_append, List.isChain_cons_cons] at hr
    exact ⟨hc p (List.mem_cons_self ..) hp, hr.1, fun m hm =>
      hc m (List.mem_cons_of_mem p hm), hr.2⟩
  · rintro ⟨hcomment, hle, hc, hr⟩
    refine ⟨fun m hm hnamed => ?_, ?_⟩
    · rcases List.mem_cons.1 hm with rfl | hm
      · exact hcomment
      · exact hc m hm hnamed
    · rw [hfilter, List.cons_append, List.isChain_cons_cons]
      exact ⟨hle, hr⟩

theorem adjoins_nil : Adjoins n [] item ↔ item.start.row ≤ n.stop.row + 1 :=
  ⟨fun h => (List.isChain_cons_cons.1 h.close).1, fun h =>
    ⟨fun _ hm => absurd hm List.not_mem_nil, List.isChain_cons_cons.2 ⟨h, .singleton n⟩⟩⟩

/-- The outer loop takes up a comment that adjoins the item and is not taken for a trailing one. -/
theorem mem_run_iff (h : Stacked (near ++ n :: far)) (hn : n.isComment) (hnear : n ∉ near) :
    n ∈ run item.start.row (near ++ n :: far) ↔ Adjoins n near item ∧ isTrailing n far = false := by
  induction near generalizing item with
  | nil =>
    have hnamed := isNamed_of_isComment hn
    rw [List.nil_append, run, adjoins_nil]
    by_cases hrow : n.stop.row + 1 < item.start.row
    · simp [hnamed, hrow]
    · simp [hnamed, hrow, hn, Nat.not_lt.1 hrow]
  | cons p near ih =>
    obtain ⟨hne, hnear⟩ := not_or.1 (mt List.mem_cons.2 hnear)
    rw [List.cons_append] at h ⊢
    have ih := fun item => @ih item (h.sublist (List.sublist_cons_self p _)) hnear
    rw [run]
    by_cases hnamed : p.isNamed
    · rw [adjoins_cons_of_isNamed hnamed]
      -- Up to a comment that adjoins it, nothing but comments stands above a comment.
      have hfree : Adjoins n near p → isTrailing p (near ++ n :: far) = false := fun ha =>
        (isTrailing_eq_false_iff h).2 fun _ => followsComment_append hn ha.comments
      by_cases hcomment : p.isComment
      · by_cases hrow : p.stop.row + 1 < item.start.row
        · simp [hnamed, hrow]
        · by_cases htrailing : isTrailing p (near ++ n :: far)
          · have hno : ¬ Adjoins n near p := fun ha => by simp [hfree ha] at htrailing
            simp [hnamed, htrailing, hno]
          · simp [hnamed, hrow, htrailing, hcomment, Nat.not_lt.1 hrow, hne, ih p]
      · simp [hnamed, hcomment]
    · rw [adjoins_cons_of_not_isNamed hnamed]
      simp [hnamed, ih item]

/-! ### Items of a script -/

/-- The text above an item is made of the words of the comments that describe it. -/
theorem above_eq_describing (item : Node) (before : List Node) :
    above item before =
      if describing item before = [] then none
      else some (" ".intercalate ((describing item before).map fun c => clean c.text)) := by
  have htexts : ((run item.start.row before).reverse.map fun c => clean c.text).filter
      (fun s => !s.isEmpty) = (describing item before).map fun c => clean c.text := by
    rw [List.filter_map, describing, Function.comp_def]
  simp only [above, htexts, List.isEmpty_map, List.isEmpty_iff]

theorem InItem.aboveItem_eq {f : Frame} {fs : List Frame} (h : InItem item f n fs) :
    aboveItem n fs = above item f.before := by
  induction h with
  | self list => rw [aboveItem, if_pos list]
  | inner free _ ih => rw [aboveItem, if_neg free, ih]

/-- The item in which a node of a tree stands is itself a node of the tree,
behind the siblings before it. -/
theorem InItem.exists_children {root : Node} {f : Frame} {fs : List Frame} (h : InItem item f n fs)
    (hn : Cursor.Under root n fs) :
    f.parent ∈ root.descendants ∧
      ∃ after, f.parent.children = f.before.reverse ++ item :: after := by
  induction h with
  | self _ =>
    cases hn with
    | child children parent => exact ⟨parent.mem_descendants, _, children⟩
  | inner _ _ ih =>
    cases hn with
    | child _ parent => exact ih parent

section

variable {root parent : Node} {before after : List Node}

theorem pairwise_before (h : root.InOrder) (hd : parent ∈ root.descendants)
    (hc : parent.children = before.reverse ++ item :: after) :
    before.Pairwise fun a b => Before b a := by
  have hordered := h parent hd
  rw [hc] at hordered
  exact List.pairwise_reverse.1 (List.pairwise_append.1 hordered).1

theorem stacked_before (h : root.InOrder) (hd : parent ∈ root.descendants)
    (hc : parent.children = before.reverse ++ item :: after) : Stacked before where
  ordered := (pairwise_before h hd hc).imp Point.row_le_of_key_le
  upright := by
    intro m hm
    have hm : m ∈ parent.children := by
      rw [hc]
      simp [hm]
    exact Point.row_le_of_key_le ((h.of_mem_descendants hd).of_mem_children hm).start_le_stop

/-- A node with characters stands in one place among its siblings. -/
theorem not_mem_near (h : root.InOrder) (hd : parent ∈ root.descendants)
    (hc : parent.children = (near ++ n :: far).reverse ++ item :: after)
    (hwide : n.start.key < n.stop.key) : n ∉ near := by
  intro hm
  have hself : Before n n :=
    (List.pairwise_append.1 (pairwise_before h hd hc)).2.2 n hm n (List.mem_cons_self ..)
  exact absurd hself hwide.not_ge

end

/-- **When a trailing comment describes the next item**, in every tree
whose siblings stand in order. -/
theorem mem_describing_iff_of_trails {root : Node} (h : root.InOrder) {c : Cursor}
    (hc : c ∈ Cursor.everywhere root) {f : Frame} (hitem : InItem item f c.node c.above)
    (hbefore : f.before = near ++ n :: far) (hn : n.isComment) (hwide : n.start.key < n.stop.key)
    (htrails : Trails n far) :
    n ∈ describing item f.before ↔
      clean n.text ≠ "" ∧ Adjoins n near item ∧ FollowsComment far := by
  obtain ⟨hparent, after, hchildren⟩ := hitem.exists_children (Cursor.under_of_mem_everywhere hc)
  have hstacked : Stacked f.before := stacked_before h hparent hchildren
  rw [hbefore] at hchildren hstacked
  have hfar : Stacked (n :: far) := hstacked.sublist (List.sublist_append_right near (n :: far))
  rw [describing, List.mem_filter, List.mem_reverse, hbefore,
    mem_run_iff hstacked hn (not_mem_near h hparent hchildren hwide), isTrailing_eq_false_iff hfar]
  simp [htrails, and_comm]

/-- A sibling before an item of a script is a node of the script. -/
theorem InItem.mem_descendants_of_before {root : Node} {f : Frame} {fs : List Frame}
    (h : InItem item f n fs) (hn : Cursor.Under root n fs) {m : Node} (hm : m ∈ f.before) :
    m ∈ root.descendants := by
  obtain ⟨hparent, after, hchildren⟩ := h.exists_children hn
  refine mem_descendants_trans hparent (mem_descendants_of_mem_children ?_)
  rw [hchildren]
  simp [hm]

/-- **When a trailing comment describes the next item.**  Wherever a node stands in a script, the
text above the item around it is made of the words of the comments that describe the item.  A
comment that starts on the row on which an earlier item of the list ends is one of them exactly when
it has words, adjoins the item, and follows another comment: right behind an item it never is, but a
second comment on the row is. -/
theorem trailing_comment_describes_iff {source : String} {p : ParsedScript}
    (hp : ParsedScript.parse? source = some p) {c : Cursor} (hc : c ∈ Cursor.everywhere p.root)
    {f : Frame} (hitem : InItem item f c.node c.above) (hbefore : f.before = near ++ n :: far)
    (hn : n.isComment) (htrails : Trails n far) :
    (c.comment? = if describing item f.before = [] then none
      else some (" ".intercalate ((describing item f.before).map fun c => clean c.text))) ∧
    (n ∈ describing item f.before ↔ clean n.text ≠ "" ∧ Adjoins n near item ∧
      FollowsComment far) := by
  have hroot : p.root.IsRoot := ParsedScript.isRoot_of_parse? hp
  refine ⟨(hitem.aboveItem_eq).trans (above_eq_describing item f.before), ?_⟩
  have hmem : n ∈ p.root.descendants :=
    hitem.mem_descendants_of_before (Cursor.under_of_mem_everywhere hc) (by rw [hbefore]; simp)
  have hk : n.kind = .comment := by simpa [isComment] using hn
  have hplaced : Placed n := hroot.placed hmem (by simp [hk]) (by simp [hk])
  exact mem_describing_iff_of_trails hroot.inOrder hc hitem hbefore hn hplaced.start_lt_stop htrails

/-- Two comments behind a statement, on its row. -/
def doubledCommentScript : String := "const a = 1; /* x */ // about a\nconst b = 2;"

/-- Before the second statement stand the two comments and the first statement, all on one row. -/
theorem before_doubledCommentScript :
    ∃ p c f n x a, ParsedScript.parse? doubledCommentScript = some p ∧
      c ∈ Cursor.everywhere p.root ∧
      InItem c.node f c.node c.above ∧ f.before = [n, x, a] ∧ c.comment? = some "about a" ∧
      (n.isComment ∧ clean n.text = "about a" ∧ c.node.start.row ≤ n.stop.row + 1) ∧ x.isComment ∧
      (a.isNamed ∧ ¬ a.isComment ∧ a.stop.row = n.start.row ∧ a.stop.row = x.start.row) := by
  have heval : ((ParsedScript.parse? doubledCommentScript).bind fun p =>
      ((Cursor.everywhere p.root).find? fun c => c.comment? == some "about a").bind fun c =>
        c.above.head?.map fun f =>
          (f.parent.kind, c.node.line, f.before.map fun m => (m.kind, m.location, clean m.text))) =
      some (.program, 2, [(.comment, ⟨1, 21, 1, 31⟩, "about a"), (.comment, ⟨1, 13, 1, 20⟩, "x"),
        (.lexicalDeclaration, ⟨1, 0, 1, 12⟩, "const a = 1;")]) := by
    decide +kernel
  obtain ⟨p, hp, he⟩ := Option.bind_eq_some_iff.1 heval
  obtain ⟨c, hc, he⟩ := Option.bind_eq_some_iff.1 he
  obtain ⟨f, hf, he⟩ := Option.map_eq_some_iff.1 he
  simp only [Prod.mk.injEq, List.map_eq_cons_iff, List.map_eq_nil_iff, location,
    Location.mk.injEq] at he
  obtain ⟨hparent, hline, n, _, hbefore, hn, x, _, rfl, hx, a, _, rfl, ha, rfl⟩ := he
  obtain ⟨fs, hfs⟩ := List.head?_eq_some_iff.1 hf
  have hcomment : c.comment? = some "about a" := by simpa using List.find?_some hc
  have hitem : InItem c.node f c.node c.above := hfs ▸ .self (by rw [hparent]; rfl)
  refine ⟨p, c, f, n, x, a, hp, List.mem_of_find?_eq_some hc, hitem, hbefore, hcomment, ?_, ?_, ?_⟩
  · refine ⟨by simp [isComment, hn], hn.2.2, ?_⟩
    rw [line] at hline
    omega
  · simp [isComment, hx]
  · refine ⟨by simp [isNamed, ha], by simp [isComment, ha], ?_, ?_⟩ <;> omega

/-- The comment right behind the statement does not describe the next one, and the
comment behind that does. -/
theorem describing_doubledCommentScript :
    ∃ p c f n x a, ParsedScript.parse? doubledCommentScript = some p ∧
      c ∈ Cursor.everywhere p.root ∧
      InItem c.node f c.node c.above ∧ f.before = [n, x, a] ∧ Trails n [x, a] ∧ Trails x [a] ∧
      n ∈ describing c.node f.before ∧ x ∉ describing c.node f.before := by
  obtain ⟨p, c, f, n, x, a, hp, hc, hitem, hbefore, -, ⟨hn, hwords, hrow⟩, hx, ha, hac, han, hax⟩ :=
    before_doubledCommentScript
  have htrailsn : Trails n [x, a] := ⟨a, by simp, ha, hac, han⟩
  have htrailsx : Trails x [a] := ⟨a, by simp, ha, hac, hax⟩
  have hdescribes :=
    (trailing_comment_describes_iff hp hc hitem (show f.before = [] ++ n :: [x, a] from hbefore) hn
      htrailsn).2
  have hsilent :=
    (trailing_comment_describes_iff hp hc hitem (show f.before = [n] ++ x :: [a] from hbefore) hx
      htrailsx).2
  refine ⟨p, c, f, n, x, a, hp, hc, hitem, hbefore, htrailsn, htrailsx,
    hdescribes.2 ⟨?_, ?_, ?_⟩, ?_⟩
  · simp [hwords]
  · exact adjoins_nil.2 hrow
  · exact (followsComment_cons_of_isNamed (isNamed_of_isComment hx)).2 hx
  · intro hmem
    exact hac ((followsComment_cons_of_isNamed ha).1 (hsilent.1 hmem).2.2)

/-- **A trailing comment describes the next statement**: the second comment starts on the row on
which the first statement ends, and its words are the text above the second statement. -/
theorem comment?_doubledCommentScript :
    ∃ p c f near n far, ParsedScript.parse? doubledCommentScript = some p ∧
      c ∈ Cursor.everywhere p.root ∧
      InItem c.node f c.node c.above ∧ f.before = near ++ n :: far ∧ n.isComment ∧ Trails n far ∧
      clean n.text = "about a" ∧ c.comment? = some "about a" := by
  obtain ⟨p, c, f, n, x, a, hp, hc, hitem, hbefore, hcomment, ⟨hn, hwords, -⟩, -, ha, hac,
    han, -⟩ := before_doubledCommentScript
  exact ⟨p, c, f, [], n, [x, a], hp, hc, hitem, hbefore, hn, ⟨a, by simp, ha, hac, han⟩, hwords,
    hcomment⟩

end Comment

end FlowAnalysis.Script
