import FlowAnalysis.Bubble.Locate
import FlowAnalysis.Proofs.Script.Construction

/-!
# Where bubbles are recorded

Some of the nodes below a node are places of a bubble (`Stands`): exactly these are recorded at the
node (`stands_of_mem_at_`, `Stands.exists_site`), and it offers them (`Offers`).  Nodes are visited
parents first, so what a node offers need not come before what the nodes below it offer; but no two
bubbles start at the same place (`found_pairwise_start_ne`).
-/

namespace FlowAnalysis

open Script Node

/-! ### Cursors and nodes -/

namespace Script.Cursor

theorem map_fst_withBefore (before cs : List Node) :
    (withBefore before cs).map Prod.fst = cs := by
  induction cs generalizing before with
  | nil => rfl
  | cons c cs ih => rw [withBefore, List.map_cons, ih]

theorem map_node_children (c : Cursor) : c.children.map node = c.node.children := by
  rw [children, List.map_map]
  exact map_fst_withBefore [] c.node.children

theorem map_node_child? (c : Cursor) (r : Role) : (c.child? r).map node = c.node.child? r := by
  rw [child?, Node.child?, ← map_node_children, List.find?_map]
  rfl

theorem map_node_part? (c : Cursor) : c.part?.map node = c.node.part? := by
  rw [part?, Node.part?, ← map_node_children, List.find?_map]
  rfl

theorem node_child? {c d : Cursor} {r : Role} (h : c.child? r = some d) :
    c.node.child? r = some d.node := by
  rw [← map_node_child?, h]
  rfl

theorem node_part? {c d : Cursor} (h : c.part? = some d) : c.node.part? = some d.node := by
  rw [← map_node_part?, h]
  rfl

theorem map_node_parts (c : Cursor) : c.parts.map node = c.node.parts := by
  rw [parts, Node.parts, ← map_node_children, List.filter_map]
  rfl

mutual

theorem map_node_below (above : List Frame) : ∀ n : Node, (below above n).map node = n.descendants
  | .token .. => rfl
  | .branch k r cs => by
    rw [below, List.map_cons, map_node_belowAll]
    rfl

theorem map_node_belowAll (parent : Node) (before : List Node) (above : List Frame) :
    ∀ cs : List Node, (belowAll parent before above cs).map node = descendantsAll cs
  | [] => rfl
  | c :: cs => by
    rw [belowAll, List.map_append, map_node_below, map_node_belowAll, descendantsAll]

end

/-- The cursors of a script stand at its nodes, parents first. -/
theorem map_node_everywhere (root : Node) : (everywhere root).map node = root.descendants :=
  map_node_below [] root

theorem node_mem_descendants {root : Node} {c : Cursor} (h : c ∈ everywhere root) :
    c.node ∈ root.descendants := by
  rw [← map_node_everywhere]
  exact List.mem_map_of_mem h

end Script.Cursor

namespace Bubble

/-! ### The places of bubbles -/

/-- A node records another as the place of a bubble, bound in a certain way. -/
inductive Stands (n : Node) : Binding → Node → Prop
  /-- The value of a declarator with a single name. -/
  | named {name e : Node} (hk : n.kind = .variableDeclarator) (hname : n.child? .name = some name)
      (hplain : name.kind = .identifier) (he : n.child? .value = some e) : Stands n (.named name) e
  /-- The value of a declarator with a pattern. -/
  | pattern {name e : Node} (hk : n.kind = .variableDeclarator) (hname : n.child? .name = some name)
      (hpattern : name.kind ≠ .identifier) (he : n.child? .value = some e) :
      Stands n (.anonymous none) e
  /-- A statement, or the result of a function. -/
  | statement {e : Node} (hk : n.kind = .expressionStatement ∨ n.kind = .returnStatement)
      (he : n.part? = some e) : Stands n (.anonymous none) e
  /-- The body of an arrow function, when it is an expression. -/
  | body {e : Node} (hk : n.kind = .arrowFunction) (he : n.child? .body = some e)
      (hexpr : e.kind ≠ .statementBlock) : Stands n (.anonymous none) e
  /-- The right side of an assignment. -/
  | assigned {left e : Node} (hk : n.kind = .assignmentExpression)
      (hleft : n.child? .left = some left) (he : n.child? .right = some e) :
      Stands n (.anonymous (some left.text)) e
  /-- An element of the list that is given to a parallel call. -/
  | task {args array e : Node} (hk : n.kind = .callExpression)
      (hparallel : n.parallelArgument?.isSome = true) (hargs : n.child? .arguments = some args)
      (harray : args.part? = some array) (hlist : array.kind = .array) (he : e ∈ array.parts) :
      Stands n (.anonymous none) e

theorem stands_of_mem_at_ {c : Cursor} {s : Site} (h : s ∈ Site.at_ c) :
    Stands c.node s.binding s.cursor.node := by
  rw [Site.at_] at h
  split at h
  · next hk =>
    split at h
    · next name value hn hv =>
      obtain rfl := List.mem_singleton.1 h
      by_cases hplain : name.kind = .identifier
      · rw [if_pos (by simpa using hplain)]
        exact .named hk hn hplain (Cursor.node_child? hv)
      · rw [if_neg (by simpa using hplain)]
        exact .pattern hk hn hplain (Cursor.node_child? hv)
    · cases h
  · next hk =>
    obtain ⟨d, hd, rfl⟩ := Option.map_eq_some_iff.1 (Option.mem_toList.1 h)
    exact .statement (.inl hk) (Cursor.node_part? hd)
  · next hk =>
    obtain ⟨d, hd, rfl⟩ := Option.map_eq_some_iff.1 (Option.mem_toList.1 h)
    exact .statement (.inr hk) (Cursor.node_part? hd)
  · next hk =>
    split at h
    · next body hb =>
      split at h
      · cases h
      · next hexpr =>
        obtain rfl := List.mem_singleton.1 h
        exact .body hk (Cursor.node_child? hb) (by simpa [Site.plain] using hexpr)
    · cases h
  · next hk =>
    split at h
    · next left right hl hr =>
      obtain rfl := List.mem_singleton.1 h
      exact .assigned hk hl (Cursor.node_child? hr)
    · cases h
  · next hk =>
    split at h
    · next hparallel =>
      split at h
      · next array ha =>
        obtain ⟨g, hg, ha⟩ := Option.bind_eq_some_iff.1 ha
        split at h
        · next hlist =>
          obtain ⟨d, hd, rfl⟩ := List.mem_map.1 h
          have hparts : d.node ∈ array.node.parts := by
            rw [← Cursor.map_node_parts]
            exact List.mem_map_of_mem hd
          exact .task hk hparallel (Cursor.node_child? hg) (Cursor.node_part? ha)
            (by simpa using hlist) hparts
        · cases h
      · cases h
    · cases h
  · cases h

/-- Every place is recorded. -/
theorem Stands.exists_site {c : Cursor} {b : Binding} {e : Node} (h : Stands c.node b e) :
    ∃ s ∈ Site.at_ c, s.binding = b ∧ s.cursor.node = e := by
  have child : ∀ {c : Cursor} {r : Role} {e : Node}, c.node.child? r = some e →
      ∃ d : Cursor, c.child? r = some d ∧ d.node = e := fun {c r e} he =>
    Option.map_eq_some_iff.1 ((Cursor.map_node_child? c r).trans he)
  have part : ∀ {c : Cursor} {e : Node}, c.node.part? = some e →
      ∃ d : Cursor, c.part? = some d ∧ d.node = e := fun {c e} he =>
    Option.map_eq_some_iff.1 ((Cursor.map_node_part? c).trans he)
  cases h with
  | @named name e hk hname hplain he =>
    obtain ⟨d, hd, rfl⟩ := child he
    refine ⟨⟨d, .named name⟩, ?_, rfl, rfl⟩
    simp [Site.at_, hk, hname, hd, hplain]
  | @pattern name e hk hname hpattern he =>
    obtain ⟨d, hd, rfl⟩ := child he
    refine ⟨⟨d, .anonymous none⟩, ?_, rfl, rfl⟩
    simp [Site.at_, hk, hname, hd, hpattern]
  | statement hk he =>
    obtain ⟨d, hd, rfl⟩ := part he
    refine ⟨.plain d, ?_, rfl, rfl⟩
    rcases hk with hk | hk <;> simp [Site.at_, hk, hd]
  | body hk he hexpr =>
    obtain ⟨d, hd, rfl⟩ := child he
    refine ⟨.plain d, ?_, rfl, rfl⟩
    simp [Site.at_, hk, hd, hexpr]
  | @assigned left e hk hleft he =>
    obtain ⟨d, hd, rfl⟩ := child he
    refine ⟨⟨d, .anonymous (some left.text)⟩, ?_, rfl, rfl⟩
    simp [Site.at_, hk, hleft, hd]
  | task hk hparallel hargs harray hlist he =>
    obtain ⟨g, hg, rfl⟩ := child hargs
    obtain ⟨a, ha, rfl⟩ := part harray
    rw [← Cursor.map_node_parts] at he
    obtain ⟨d, hd, rfl⟩ := List.mem_map.1 he
    refine ⟨.plain d, ?_, rfl, rfl⟩
    simp only [Site.at_, hk, hparallel, if_true, hg, Option.bind_some, ha, hlist, beq_self_eq_true]
    exact List.mem_map_of_mem hd

/-! ### What a node offers -/

/-- Kinds of nodes that offer a child. -/
def offersChild : Kind → Bool
  | .variableDeclarator | .expressionStatement | .returnStatement | .arrowFunction
  | .assignmentExpression => true
  | _ => false

/-- A node offers another as the place of a bubble: a child, or a task in a list given to a call. -/
inductive Offers (n : Node) : Node → Prop
  | child {y : Node} (hk : offersChild n.kind = true) (hy : y ∈ n.children) : Offers n y
  | task {g a y : Node} (hk : n.kind = .callExpression) (hg : n.child? .arguments = some g)
      (ha : g.part? = some a) (hak : a.kind = .array) (hy : y ∈ a.parts) : Offers n y

/-- What is recorded at a node is offered by it. -/
theorem Stands.offers {n e : Node} {b : Binding} (h : Stands n b e) : Offers n e := by
  cases h with
  | named hk _ _ he => exact .child (by rw [hk]; rfl) (mem_children_of_child? he)
  | pattern hk _ _ he => exact .child (by rw [hk]; rfl) (mem_children_of_child? he)
  | statement hk he =>
    exact .child (by rcases hk with hk | hk <;> rw [hk] <;> rfl) (mem_children_of_part? he)
  | body hk he _ => exact .child (by rw [hk]; rfl) (mem_children_of_child? he)
  | assigned hk _ he => exact .child (by rw [hk]; rfl) (mem_children_of_child? he)
  | task hk _ hargs harray hlist he => exact .task hk hargs harray hlist he

theorem offers_of_mem_at_ {c : Cursor} {s : Site} (h : s ∈ Site.at_ c) :
    Offers c.node s.cursor.node :=
  (stands_of_mem_at_ h).offers

namespace Offers

variable {n m x y : Node}

theorem mem_descendants (h : Offers n y) : y ∈ n.descendants := by
  cases h with
  | child _ hy => exact mem_descendants_of_mem_children hy
  | task _ hg ha _ hy =>
    refine mem_descendants_trans (mem_descendants_of_mem_children (mem_children_of_child? hg)) ?_
    refine mem_descendants_trans (mem_descendants_of_mem_children (mem_children_of_part? ha)) ?_
    exact mem_descendants_of_mem_children (mem_children_of_mem_parts hy)

theorem children_ne_nil (h : Offers n y) : n.children ≠ [] := by
  cases h with
  | child _ hy => exact List.ne_nil_of_mem hy
  | task _ hg => exact List.ne_nil_of_mem (mem_children_of_child? hg)

theorem kind_ne (h : Offers n y) {k : Kind} (hk : offersChild k = false)
    (hc : k ≠ .callExpression) : n.kind ≠ k := by
  rintro rfl
  cases h with
  | child hk' => simp [hk] at hk'
  | task hk' => exact hc hk'

theorem within (hn : Placed n) (h : Offers n y) : Within y n :=
  hn.within_of_mem_descendants h.mem_descendants

end Offers

/-! ### Bubbles start at different places -/

section

variable {n m x y e z : Node}

/-- The list of tasks given to a call starts later than the call. -/
theorem start_lt_of_offers_call (hn : Placed n) (hk : n.kind = .callExpression) (h : Offers n y) :
    n.start.key < y.start.key := by
  cases h with
  | child hk' => simp [hk, offersChild] at hk'
  | @task g a _ _ hg ha hak hy =>
    have hgm := mem_children_of_child? hg
    have ham := mem_children_of_part? ha
    have hgp := hn.of_mem_children hgm
    have hle : g.start.key ≤ y.start.key := by
      have hya : Within y a :=
        (hgp.of_mem_children ham).within_of_mem_children (mem_children_of_mem_parts hy)
      exact (hya.trans (hgp.within_of_mem_children ham)).start
    rcases hn.head_or_start_lt hgm with hhead | hlt
    · -- The first child of a call is what is called or a word, and neither has arguments in it.
      have hshape := hn.shaped (List.ne_nil_of_mem hgm)
      rw [hk] at hshape
      rcases hshape.2 g hhead with hr | ⟨hnil, _⟩
      · rw [role_of_child? hg] at hr
        cases hr
      · rw [hnil] at ham
        cases ham
    · exact hlt.trans_le hle

/-- What is offered below a node is offered in its first child, which then has children, or
starts later than the node. -/
theorem head_or_start_lt_of_offers (hn : Placed n) (hm : m ∈ descendantsAll n.children)
    (hy : Offers m y) :
    (∃ c, n.children.head? = some c ∧ c.children ≠ [] ∧ m ∈ c.descendants) ∨
      n.start.key < y.start.key := by
  have hmp : Placed m := hn.of_mem_descendants (mem_descendants_of_below hm)
  rcases hn.head_or_start_lt_of_below hm with ⟨c, hhead, hmc⟩ | hlt
  · refine .inl ⟨c, hhead, fun hnil => ?_, hmc⟩
    rw [descendants_of_children_eq_nil hnil] at hmc
    obtain rfl := List.mem_singleton.1 hmc
    exact hy.children_ne_nil hnil
  · exact .inr (hlt.trans_le (hy.within hmp).start)

/-- Nothing that is offered inside a construction starts where the construction starts. -/
theorem start_lt_of_wraps (hw : Wraps z e) (he : Placed e) (hm : m ∈ e.descendants)
    (hy : Offers m y) : e.start.key < y.start.key := by
  -- Where the first child has no children, nothing is offered in it.
  have opened : ∀ {e : Node}, Placed e → (∀ c ∈ e.children.head?, c.children = []) →
      m ∈ descendantsAll e.children → e.start.key < y.start.key := by
    intro e he hhead hm
    rcases head_or_start_lt_of_offers he hm hy with ⟨c, hc, hne, _⟩ | hlt
    · exact absurd (hhead c hc) hne
    · exact hlt
  have shape : ∀ {e : Node}, Placed e → m ∈ descendantsAll e.children →
      Shaped e.kind e.children := by
    intro e he hm
    obtain ⟨c, hc, _⟩ := mem_descendantsAll.1 hm
    exact he.shaped (List.ne_nil_of_mem hc)
  induction hw with
  | here hk =>
    rcases List.mem_cons.1 (descendants_eq _ ▸ hm) with rfl | hm
    · exact absurd hk (hy.kind_ne rfl (by decide))
    · have hshape := shape he hm
      rw [hk] at hshape
      exact opened he hshape.1 hm
  | inside hk _ _ _ =>
    rcases List.mem_cons.1 (descendants_eq _ ▸ hm) with rfl | hm
    · rcases hk with hk | hk <;> exact absurd hk (hy.kind_ne rfl (by decide))
    · have hshape := shape he hm
      rcases hk with hk | hk <;> rw [hk] at hshape <;> exact opened he hshape hm
  | @action e f o property hk hf hfk _ _ ho _ ih =>
    have hfp := he.of_mem_children (mem_children_of_child? hf)
    rcases List.mem_cons.1 (descendants_eq _ ▸ hm) with rfl | hm
    · exact start_lt_of_offers_call he hk hy
    · -- What is called comes first in the call, and the object comes first in what is called.
      rcases head_or_start_lt_of_offers he hm hy with ⟨c, hc, hne, hmc⟩ | hlt
      · have hshape := shape he hm
        rw [hk] at hshape
        have hrole : c.role = some .function :=
          (hshape.2 c hc).resolve_right fun hnil => hne hnil.1
        obtain rfl : c = f := Option.some.inj ((child?_of_head? hc hrole).symm.trans hf)
        rw [← start_of_head? hc]
        rcases List.mem_cons.1 (descendants_eq _ ▸ hmc) with rfl | hmc
        · exact absurd hfk (hy.kind_ne rfl (by decide))
        · rcases head_or_start_lt_of_offers hfp hmc hy with ⟨d, hd, _, hmd⟩ | hlt
          · have hshape' := shape hfp hmc
            rw [hfk] at hshape'
            have hrole' : d.role = some .object := (hshape'.head hd).2
            obtain rfl : d = o := Option.some.inj ((child?_of_head? hd hrole').symm.trans ho)
            rw [← start_of_head? hd]
            exact ih (hfp.of_mem_children (mem_children_of_child? ho)) hmd
          · exact hlt
      · exact hlt

/-- A construction that a node offers does not start where something starts that
is offered below the node. -/
theorem start_ne_of_below (hn : Placed n) (hx : Offers n x) (hw : Wraps z x)
    (hm : m ∈ descendantsAll n.children) (hy : Offers m y) : x.start.key ≠ y.start.key := by
  have hxp : Placed x := hn.of_mem_descendants hx.mem_descendants
  have hmp : Placed m := hn.of_mem_descendants (mem_descendants_of_below hm)
  have hyp : Placed y := hmp.of_mem_descendants hy.mem_descendants
  have apart : ∀ {c : Node}, Within x c → Apart c m → x.start.key ≠ y.start.key := fun hxc h =>
    hxp.start_ne_of_apart hyp (h.mono hxc (hy.within hmp))
  have inside : m ∈ x.descendants → x.start.key ≠ y.start.key := fun h =>
    (start_lt_of_wraps hw hxp h hy).ne
  cases hx with
  | child _ hxm =>
    rcases hn.below_or_apart hxm hm with h | h
    · exact inside h
    · exact apart (.refl x) h
  | @task g a _ hk hg ha hak hxa =>
    have hgm := mem_children_of_child? hg
    have ham := mem_children_of_part? ha
    have hxm := mem_children_of_mem_parts hxa
    have hgp := hn.of_mem_children hgm
    have hxw : Within x a := (hgp.of_mem_children ham).within_of_mem_children hxm
    -- Between the call and the task are the arguments and the list, and neither offers anything.
    rcases hn.below_or_apart hgm hm with h | h
    · rcases List.mem_cons.1 (descendants_eq g ▸ h) with rfl | h
      · have hshape := hn.shaped (List.ne_nil_of_mem hgm)
        rw [hk] at hshape
        rcases hshape.1 m hgm (role_of_child? hg) with hmk | hmk
        · exact absurd hmk (hy.kind_ne rfl (by decide))
        · exact absurd hmk (hy.kind_ne rfl (by decide))
      · rcases hgp.below_or_apart ham h with h | h
        · rcases List.mem_cons.1 (descendants_eq a ▸ h) with rfl | h
          · exact absurd hak (hy.kind_ne rfl (by decide))
          · rcases (hgp.of_mem_children ham).below_or_apart hxm h with h | h
            · exact inside h
            · exact apart (.refl x) h
        · exact apart hxw h
    · exact apart (hxw.trans (hgp.within_of_mem_children ham)) h

/-- The nodes at which a node records bubbles stand one after the other. -/
theorem pairwise_before_at_ {c : Cursor} (hc : Placed c.node) :
    (Site.at_ c).Pairwise fun s t => Before s.cursor.node t.cursor.node := by
  rw [Site.at_]
  split
  · split
    · exact List.pairwise_singleton _ _
    · exact .nil
  · cases c.part? with
    | none => exact .nil
    | some d => exact List.pairwise_singleton _ _
  · cases c.part? with
    | none => exact .nil
    | some d => exact List.pairwise_singleton _ _
  · split
    · split
      · exact .nil
      · exact List.pairwise_singleton _ _
    · exact .nil
  · split
    · exact List.pairwise_singleton _ _
    · exact .nil
  · split
    · split
      · next array ha =>
        split
        · have hap : Placed array.node := by
            obtain ⟨g, hg, ha⟩ := Option.bind_eq_some_iff.1 ha
            have hgp := hc.of_mem_children (mem_children_of_child? (Cursor.node_child? hg))
            exact hgp.of_mem_children (mem_children_of_part? (Cursor.node_part? ha))
          have hparts : (array.parts.map Cursor.node).Pairwise Before := by
            rw [Cursor.map_node_parts]
            exact hap.ordered.filter _
          exact List.pairwise_map.2 (List.pairwise_map.1 hparts)
        · exact .nil
      · exact .nil
    · exact .nil
  · exact .nil

end

/-! ### What is found -/

/-- The expression at which a bubble is found. -/
def Found.node (f : Found) : Node := f.site.cursor.node

/-- The registered constructions that a node records. -/
def foundAt (registry : Registry) (imports : ByName String) (c : Cursor) : List Found :=
  (Site.at_ c).filterMap (Found.of? registry imports)

theorem found_eq_flatMap (p : ParsedScript) (registry : Registry) (options : Options) :
    found p registry options
      = (Cursor.everywhere p.root).flatMap
          (foundAt registry (p.root.imports options.bubblePackage)) := by
  rw [found, List.filterMap_flatMap]
  rfl

section

variable {registry : Registry} {imports : ByName String} {root : Node} {c d : Cursor} {f g : Found}

/-- A bubble found at a site is a construction of a registered class there. -/
theorem Found.of?_spec {s : Site} (h : Found.of? registry imports s = some f) :
    f.site = s ∧ Construction.of? f.node = some f.construction ∧
      ∃ name, f.construction.className? = some name ∧
        registry.resolve? imports name = some (f.className, f.descriptor) := by
  simp only [Found.of?, Option.bind_eq_bind] at h
  obtain ⟨construction, hc, h⟩ := Option.bind_eq_some_iff.1 h
  obtain ⟨name, hn, h⟩ := Option.bind_eq_some_iff.1 h
  obtain ⟨⟨className, descriptor⟩, hr, h⟩ := Option.bind_eq_some_iff.1 h
  cases h
  exact ⟨rfl, hc, name, hn, hr⟩

theorem offers_of_mem_foundAt (h : f ∈ foundAt registry imports c) :
    Offers c.node f.node ∧ Wraps f.construction.node f.node := by
  obtain ⟨s, hs, hf⟩ := List.mem_filterMap.1 h
  obtain ⟨rfl, hc, _⟩ := Found.of?_spec hf
  exact ⟨offers_of_mem_at_ hs, wraps_of_of? hc⟩

theorem placed_of_mem_foundAt (h : root.IsRoot) (hc : c ∈ Cursor.everywhere root)
    (hf : f ∈ foundAt registry imports c) : Placed c.node := by
  have ho := (offers_of_mem_foundAt hf).1
  exact h.placed (Cursor.node_mem_descendants hc) (ho.kind_ne rfl (by decide))
    (ho.kind_ne rfl (by decide))

/-- The bubbles recorded at a node start one after the other. -/
theorem foundAt_pairwise (hc : Placed c.node) :
    (foundAt registry imports c).Pairwise fun f g => f.node.start.key < g.node.start.key := by
  rw [foundAt, List.pairwise_filterMap]
  refine (pairwise_before_at_ hc).imp_of_mem fun {s t} hs ht hst f hf g hg => ?_
  obtain ⟨rfl, _⟩ := Found.of?_spec hf
  obtain ⟨rfl, _⟩ := Found.of?_spec hg
  have hp : Placed f.node := hc.of_mem_descendants (offers_of_mem_at_ hs).mem_descendants
  exact hp.start_lt_stop.trans_le hst

/-- A bubble recorded at a node starts before those recorded at nodes after it. -/
theorem start_lt_of_before (hc : Placed c.node) (hd : Placed d.node) (h : Before c.node d.node)
    (hf : f ∈ foundAt registry imports c) (hg : g ∈ foundAt registry imports d) :
    f.node.start.key < g.node.start.key := by
  have hof := (offers_of_mem_foundAt hf).1
  have hog := (offers_of_mem_foundAt hg).1
  have hp : Placed f.node := hc.of_mem_descendants hof.mem_descendants
  exact hp.start_lt_stop.trans_le (h.mono (hof.within hc) (hog.within hd))

/-- The nodes of a script that record bubbles, parents first: a later one is below an earlier one or
comes after it. -/
theorem everywhere_pairwise (h : root.IsRoot) :
    (Cursor.everywhere root).Pairwise fun c d =>
      d.node ∈ descendantsAll c.node.children ∨ Before c.node d.node := by
  have hp := h.inOrder.pairwise_descendants
  rw [← Cursor.map_node_everywhere] at hp
  exact List.pairwise_map.1 hp

/-- No two bubbles of a script start at the same place. -/
theorem found_pairwise_start_ne {p : ParsedScript} (h : p.root.IsRoot) (registry : Registry)
    (options : Options) :
    (found p registry options).Pairwise fun f g => f.node.start.key ≠ g.node.start.key := by
  rw [found_eq_flatMap, List.pairwise_flatMap]
  constructor
  · intro c hc
    by_cases hnil : foundAt registry (p.root.imports options.bubblePackage) c = []
    · rw [hnil]
      exact .nil
    · obtain ⟨f, hf⟩ := List.exists_mem_of_ne_nil _ hnil
      exact (foundAt_pairwise (placed_of_mem_foundAt h hc hf)).imp fun hlt => hlt.ne
  · refine (everywhere_pairwise h).imp_of_mem fun {c d} hc hd hcd f hf g hg => ?_
    have hcp := placed_of_mem_foundAt h hc hf
    rcases hcd with hbelow | hbefore
    · have hof := offers_of_mem_foundAt hf
      exact start_ne_of_below hcp hof.1 hof.2 hbelow (offers_of_mem_foundAt hg).1
    · exact (start_lt_of_before hcp (placed_of_mem_foundAt h hd hg) hbefore hf hg).ne

end

end Bubble

end FlowAnalysis
