import FlowAnalysis.Proofs.Script.Extent
import FlowAnalysis.Script.Expression

/-!
# The shape of a construction

An expression that constructs a class is a `new` expression, perhaps in parentheses, awaited, or
with `action` called on it (`Wraps`).  Each of these opens with a word, with a mark or with the
expression inside it, so nothing else starts where the expression starts.
-/

namespace FlowAnalysis.Script

open Node

/-! ### Children by place -/

namespace Node

variable {n c : Node}

/-- A child is the first one or starts later than the node. -/
theorem Placed.head_or_start_lt (h : Placed n) (hc : c ∈ n.children) :
    n.children.head? = some c ∨ n.start.key < c.start.key := by
  cases h with
  | token => cases hc
  | @branch k r cs _ _ ordered children =>
    cases cs with
    | nil => cases hc
    | cons d ds =>
      rcases List.mem_cons.1 hc with rfl | hc
      · exact .inl rfl
      · have hbefore : Before d c := (List.pairwise_cons.1 ordered).1 c hc
        exact .inr ((children d List.mem_cons_self).start_lt_stop.trans_le hbefore)

/-- What is below a node is below its first child or starts later than the node. -/
theorem Placed.head_or_start_lt_of_below {m : Node} (h : Placed n)
    (hm : m ∈ descendantsAll n.children) :
    (∃ c, n.children.head? = some c ∧ m ∈ c.descendants) ∨ n.start.key < m.start.key := by
  obtain ⟨c, hc, hmc⟩ := mem_descendantsAll.1 hm
  rcases h.head_or_start_lt hc with hhead | hlt
  · exact .inl ⟨c, hhead, hmc⟩
  · exact .inr (hlt.trans_le ((h.of_mem_children hc).within_of_mem_descendants hmc).start)

/-- What is below a node is below a given child or apart from it. -/
theorem Placed.below_or_apart {m : Node} (h : Placed n) (hc : c ∈ n.children)
    (hm : m ∈ descendantsAll n.children) : m ∈ c.descendants ∨ Apart c m := by
  obtain ⟨d, hd, hmd⟩ := mem_descendantsAll.1 hm
  by_cases he : c = d
  · exact .inl (he ▸ hmd)
  · have hw : Within m d := (h.of_mem_children hd).within_of_mem_descendants hmd
    exact .inr ((apart_of_ne h.ordered hc hd he).mono (.refl c) hw)

/-- A node starts with its first child. -/
theorem start_of_head? (h : n.children.head? = some c) : c.start = n.start := by
  cases n with
  | token => cases h
  | branch k r cs =>
    cases cs with
    | nil => cases h
    | cons d ds =>
      obtain rfl := Option.some.inj h
      rfl

/-- The first child is the one in its role. -/
theorem child?_of_head? {r : Role} (h : n.children.head? = some c) (hr : c.role = some r) :
    n.child? r = some c := by
  rw [child?]
  cases hn : n.children with
  | nil => simp [hn] at h
  | cons d ds =>
    rw [hn] at h
    obtain rfl := Option.some.inj h
    rw [List.find?_cons_of_pos]
    simp [hr]

theorem role_of_child? {r : Role} (h : n.child? r = some c) : c.role = some r := by
  simpa using List.find?_some h

theorem descendants_of_children_eq_nil (h : n.children = []) : n.descendants = [n] := by
  rw [descendants_eq, h]
  rfl

/-! ### The text of a child -/

mutual

/-- The text of a node ends its source. -/
theorem text_suffix_source : ∀ n : Node, n.text.toList <:+ n.source.toList
  | .token k r p b l => by
    rw [source_token, String.toList_append]
    exact List.suffix_append _ _
  | .branch k r cs => textAll_suffix_sourceAll cs

theorem textAll_suffix_sourceAll : ∀ cs : List Node, (textAll cs).toList <:+ (sourceAll cs).toList
  | [] => List.suffix_refl _
  | c :: cs => by
    obtain ⟨blank, hblank⟩ := text_suffix_source c
    refine ⟨blank, ?_⟩
    rw [textAll, sourceAll, String.toList_append, String.toList_append, ← hblank,
      List.append_assoc]

end

theorem source_infix_sourceAll {cs : List Node} (h : c ∈ cs) :
    c.source.toList <:+: (sourceAll cs).toList := by
  induction cs with
  | nil => cases h
  | cons d ds ih =>
    rw [sourceAll, String.toList_append]
    rcases List.mem_cons.1 h with rfl | h
    · exact (List.prefix_append _ _).isInfix
    · exact (ih h).trans (List.suffix_append _ _).isInfix

/-- The text of a child is part of the text of the node. -/
theorem text_infix_of_mem_children (h : c ∈ n.children) : c.text.toList <:+: n.text.toList := by
  cases n with
  | token => cases h
  | branch k r cs =>
    show _ <:+: (textAll cs).toList
    cases cs with
    | nil => cases h
    | cons d ds =>
      rw [textAll, String.toList_append]
      rcases List.mem_cons.1 h with rfl | h
      · exact (List.prefix_append _ _).isInfix
      · have hinfix : c.text.toList <:+: (sourceAll ds).toList :=
          (text_suffix_source c).isInfix.trans (source_infix_sourceAll h)
        exact hinfix.trans (List.suffix_append _ _).isInfix

/-! ### Parentheses and `await` -/

theorem stripParens_mem_descendants (n : Node) : n.stripParens ∈ n.descendants := by
  rw [stripParens]
  split
  · split
    · next inner h =>
      exact mem_descendants_trans (mem_descendants_of_mem_children (mem_children_of_part? h))
        (stripParens_mem_descendants inner)
    · exact self_mem_descendants n
  · exact self_mem_descendants n
termination_by n.size
decreasing_by exact size_lt_of_part? ‹_›

theorem stripAwait_mem_descendants (n : Node) : n.stripAwait ∈ n.descendants := by
  have hp := stripParens_mem_descendants n
  rw [stripAwait]
  split
  · split
    · next inner h =>
      refine mem_descendants_trans hp ?_
      exact mem_descendants_trans (mem_descendants_of_mem_children (mem_children_of_part? h))
        (stripAwait_mem_descendants inner)
    · exact hp
  · exact hp
termination_by n.size
decreasing_by exact Nat.lt_of_lt_of_le (size_lt_of_part? ‹_›) (size_stripParens_le n)

end Node

/-! ### Constructions -/

/-- An expression is a `new` expression, perhaps in parentheses, awaited, or with `action` called on
it. -/
inductive Wraps (x : Node) : Node → Prop
  | here (hk : x.kind = .newExpression) : Wraps x x
  | inside {e m : Node} (hk : e.kind = .parenthesizedExpression ∨ e.kind = .awaitExpression)
      (hm : e.part? = some m) (h : Wraps x m) : Wraps x e
  | action {e f o property : Node} (hk : e.kind = .callExpression)
      (hf : e.child? .function = some f) (hfk : f.kind = .memberExpression)
      (hp : f.child? .property = some property) (hpt : property.text = "action")
      (ho : f.child? .object = some o) (h : Wraps x o) : Wraps x e

namespace Wraps

variable {x y e : Node}

theorem kind_new (h : Wraps x e) : x.kind = .newExpression := by
  induction h with
  | here hk => exact hk
  | inside _ _ _ ih => exact ih
  | action _ _ _ _ _ _ _ ih => exact ih

/-- An expression is built around one `new` expression. -/
theorem unique (hx : Wraps x e) (hy : Wraps y e) : x = y := by
  induction hx with
  | here hk =>
    cases hy with
    | here => rfl
    | inside hk' => rcases hk' with hk' | hk' <;> rw [hk] at hk' <;> cases hk'
    | action hk' =>
      rw [hk] at hk'
      cases hk'
  | inside hk hm _ ih =>
    cases hy with
    | here hk' => rcases hk with hk | hk <;> rw [hk] at hk' <;> cases hk'
    | inside _ hm' h' =>
      rw [hm] at hm'
      obtain rfl := Option.some.inj hm'
      exact ih h'
    | action hk' => rcases hk with hk | hk <;> rw [hk] at hk' <;> cases hk'
  | action hk hf _ _ _ ho _ ih =>
    cases hy with
    | here hk' =>
      rw [hk] at hk'
      cases hk'
    | inside hk' => rcases hk' with hk' | hk' <;> rw [hk] at hk' <;> cases hk'
    | action _ hf' _ _ _ ho' h' =>
      rw [hf] at hf'
      obtain rfl := Option.some.inj hf'
      rw [ho] at ho'
      obtain rfl := Option.some.inj ho'
      exact ih h'

theorem mem_descendants (h : Wraps x e) : x ∈ e.descendants := by
  induction h with
  | here => exact self_mem_descendants x
  | inside _ hm _ ih =>
    exact mem_descendants_trans (mem_descendants_of_mem_children (mem_children_of_part? hm)) ih
  | action _ hf _ _ _ ho _ ih =>
    refine mem_descendants_trans (mem_descendants_of_mem_children (mem_children_of_child? hf)) ?_
    exact mem_descendants_trans (mem_descendants_of_mem_children (mem_children_of_child? ho)) ih

theorem kind (h : Wraps x e) :
    e.kind = .newExpression ∨ e.kind = .parenthesizedExpression ∨ e.kind = .awaitExpression ∨
      e.kind = .callExpression := by
  cases h with
  | here hk => exact .inl hk
  | inside hk => exact .inr (hk.imp_right .inl)
  | action hk => exact .inr (.inr (.inr hk))

theorem kind_ne (h : Wraps x e) {k : Kind}
    (hk : k ≠ .newExpression ∧ k ≠ .parenthesizedExpression ∧ k ≠ .awaitExpression ∧
      k ≠ .callExpression) : e.kind ≠ k := by
  rintro rfl
  rcases h.kind with he | he | he | he
  · exact hk.1 he
  · exact hk.2.1 he
  · exact hk.2.2.1 he
  · exact hk.2.2.2 he

/-- A construction is named and no comment. -/
theorem mem_parts {n : Node} (h : Wraps x e) (he : e ∈ n.children) : e ∈ n.parts := by
  refine List.mem_filter.2 ⟨he, ?_⟩
  have hnamed := h.kind_ne (k := .anonymous) (by decide)
  have hcomment := h.kind_ne (k := .comment) (by decide)
  simp [isNamed, isComment, hnamed, hcomment]

theorem stripParens_eq_self {n : Node} (h : n.kind ≠ .parenthesizedExpression) :
    n.stripParens = n := by
  rw [stripParens, if_neg (by simpa using h)]

theorem stripParens_of_part? {n m : Node} (hk : n.kind = .parenthesizedExpression)
    (hm : n.part? = some m) : n.stripParens = m.stripParens := by
  rw [stripParens, if_pos (by simp [hk])]
  split
  · next inner hi =>
    rw [hm] at hi
    rw [Option.some.inj hi]
  · next hnone =>
    rw [hm] at hnone
    cases hnone

/-- Parentheses and `await` are taken off without losing the construction. -/
theorem stripAwait (h : Wraps x e) : Wraps x e.stripAwait := by
  induction h with
  | here hk =>
    rw [Node.stripAwait, stripParens_eq_self (by simp [hk])]
    simpa [hk] using Wraps.here hk
  | @inside e m hk hm h ih =>
    -- Parentheses are taken off before the one `await`, so the two wrappers differ.
    rcases hk with hk | hk
    · rw [Node.stripAwait, stripParens_of_part? hk hm]
      rw [Node.stripAwait] at ih
      exact ih
    · rw [Node.stripAwait, stripParens_eq_self (by simp [hk])]
      rw [if_pos (by simp [hk])]
      split
      · next inner hi =>
        rw [hm] at hi
        rw [← Option.some.inj hi]
        exact ih
      · next hnone =>
        rw [hm] at hnone
        cases hnone
  | action hk hf hfk hp hpt ho h =>
    rw [Node.stripAwait, stripParens_eq_self (by simp [hk])]
    simpa [hk] using Wraps.action hk hf hfk hp hpt ho h

/-- A construction is no call of a function by its name or through `this`. -/
theorem callTarget?_eq_none (h : Wraps x e) (hk : e.kind = .callExpression) :
    e.callTarget? = none := by
  cases h with
  | here hk' =>
    rw [hk] at hk'
    cases hk'
  | inside hk' => rcases hk' with hk' | hk' <;> rw [hk] at hk' <;> cases hk'
  | @action _ f o _ _ hf hfk _ _ ho h =>
    have hthis : o.kind ≠ .thisValue := h.kind_ne (by decide)
    simp [callTarget?, hf, stripParens_eq_self, hfk, ho, hthis]

/-- A construction does not run tasks side by side: `action` is no part of `Promise.all`. -/
theorem parallelArgument?_eq_none (h : Wraps x e) : e.parallelArgument? = none := by
  simp only [parallelArgument?, Option.bind_eq_bind]
  split
  · next hk =>
    have hs := h.stripAwait
    generalize e.stripAwait = e' at hk hs
    cases hs with
    | here hk' =>
      rw [hk'] at hk
      cases hk
    | inside hk' => rcases hk' with hk' | hk' <;> rw [hk'] at hk <;> cases hk
    | @action _ f _ property _ hf _ hp hpt =>
      -- What is called ends in `action`, and that stands nowhere in the names of the two functions.
      have hinfix := text_infix_of_mem_children (mem_children_of_child? hp)
      rw [hpt] at hinfix
      have hall : f.text ≠ "Promise.all" := by
        intro ht
        rw [ht] at hinfix
        exact absurd hinfix (by decide +kernel)
      have hsettled : f.text ≠ "Promise.allSettled" := by
        intro ht
        rw [ht] at hinfix
        exact absurd hinfix (by decide +kernel)
      simp [hf, hall, hsettled]
  · rfl

theorem of_stripParens {n : Node} (h : Wraps x n.stripParens) : Wraps x n := by
  rw [stripParens] at h
  split at h
  · next hk =>
    split at h
    · next inner hi => exact .inside (.inl (by simpa using hk)) hi (of_stripParens h)
    · exact h
  · exact h
termination_by n.size
decreasing_by exact size_lt_of_part? ‹_›

theorem of_behindAwait? {n m : Node} {b : Bool} (h : Construction.behindAwait? n = some (m, b))
    (hm : Wraps x m) : Wraps x n := by
  rw [Construction.behindAwait?] at h
  split at h
  · next hk =>
    obtain ⟨inner, hi, he⟩ := Option.map_eq_some_iff.1 h
    cases he
    exact .inside (.inr (by simpa using hk)) hi hm.of_stripParens
  · cases h
    exact hm

end Wraps

/-- What constructs a class is built around the `new` expression. -/
theorem wraps_of_of? {e : Node} {c : Construction} (h : Construction.of? e = some c) :
    Wraps c.node e := by
  simp only [Construction.of?, Option.bind_eq_bind] at h
  obtain ⟨⟨current, b⟩, hc, h⟩ := Option.bind_eq_some_iff.1 h
  refine .of_stripParens (.of_behindAwait? hc ?_)
  simp only at h
  -- Behind the wrappers is a call of `action` on the construction, or the construction itself.
  split at h
  · next hk =>
    obtain ⟨f, hf, h⟩ := Option.bind_eq_some_iff.1 h
    split at h
    · next hfk =>
      obtain ⟨property, hp, h⟩ := Option.bind_eq_some_iff.1 h
      split at h
      · next hpt =>
        obtain ⟨o, ho, h⟩ := Option.bind_eq_some_iff.1 h
        obtain ⟨⟨inner, b'⟩, hi, h⟩ := Option.bind_eq_some_iff.1 h
        simp only at h
        split at h
        · next hik =>
          cases h
          refine .action (by simpa using hk) hf (by simpa using hfk) hp (by simpa using hpt) ho ?_
          exact .of_stripParens (.of_behindAwait? hi (.here (by simpa using hik)))
        · cases h
      · cases h
    · cases h
  · split at h
    · next hk =>
      cases h
      exact .here (by simpa using hk)
    · cases h

end FlowAnalysis.Script
