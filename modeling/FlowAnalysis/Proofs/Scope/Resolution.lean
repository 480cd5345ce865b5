import FlowAnalysis.Proofs.Scope.Visibility

/-!
# The scope in which a name is found

A name is looked up along the scopes around a scope, and this for each of the scopes at a line in
turn, narrow ones first.  So the search ends at the nearest scope that binds the name around the
first scope from which one can be met (`Resolves`, `Valid.exists_resolves`).  A scope that binds the
name and is narrower than the one found does not stand around the scope where the search starts: the
two share the line side by side.  Hence the scope that is found is as narrow as any exactly when one
of the narrowest stands around the start, and it always is when the scopes at the line stand one
inside the other (`Valid.exists_resolves_narrowest_iff`, and for the scopes of a script
`ParsedScript.resolve?_narrowest_iff`).
-/

namespace FlowAnalysis

namespace ScopeTree

variable {t : ScopeTree} {name : String} {line : Nat}

/-! ### The scopes around a scope -/

/-- A scope around another, or that scope itself, holds its lines and comes no later. -/
theorem Valid.around_of_mem_outward (h : Valid t) {fuel id a : Nat} {s : Scope}
    (hs : t.scopes[id]? = some s) (ha : a ∈ t.outward fuel id) :
    ∃ q, t.scopes[a]? = some q ∧ s.width ≤ q.width ∧ a ≤ id := by
  induction fuel generalizing id s with
  | zero =>
    obtain rfl := List.mem_singleton.1 ha
    exact ⟨s, hs, Nat.le_refl _, Nat.le_refl _⟩
  | succ fuel ih =>
    rw [outward, hs, Option.bind_some] at ha
    cases hp : s.parent with
    | none =>
      rw [hp] at ha
      obtain rfl := List.mem_singleton.1 ha
      exact ⟨s, hs, Nat.le_refl _, Nat.le_refl _⟩
    | some p =>
      rw [hp] at ha
      rcases List.mem_cons.1 ha with rfl | ha
      · exact ⟨s, hs, Nat.le_refl _, Nat.le_refl _⟩
      · obtain ⟨q, hlt, hq, hstart, hend⟩ := h.exists_parent hs hp
        obtain ⟨r, hr, hwidth, hle⟩ := ih hq ha
        have hparent : s.width ≤ q.width := by
          unfold Scope.width
          omega
        exact ⟨r, hr, hparent.trans hwidth, hle.trans hlt.le⟩

/-- One scope is no wider than another. -/
def NoWider (t : ScopeTree) (a b : Nat) : Prop :=
  ∀ s q, t.scopes[a]? = some s → t.scopes[b]? = some q → s.width ≤ q.width

/-- The scopes around a scope get wider. -/
theorem Valid.pairwise_outward (h : Valid t) (fuel id : Nat) :
    (t.outward fuel id).Pairwise t.NoWider := by
  induction fuel generalizing id with
  | zero => exact List.pairwise_singleton _ id
  | succ fuel ih =>
    -- The scope itself comes first, and all others are around it.
    have hall : ∀ a ∈ t.outward (fuel + 1) id, t.NoWider id a := by
      intro a ha s q hs hq
      obtain ⟨r, hr, hwidth, -⟩ := h.around_of_mem_outward hs ha
      rw [Option.some.inj (hq.symm.trans hr)]
      exact hwidth
    rw [outward] at hall ⊢
    split
    · next p hp =>
      rw [hp] at hall
      exact List.pairwise_cons.2 ⟨fun a ha => hall a (List.mem_cons_of_mem _ ha), ih p⟩
    · exact List.pairwise_singleton _ id

/-! ### The search for a name -/

/-- The search for a name at a line starts from one scope and ends with one variable. -/
structure Resolves (t : ScopeTree) (name : String) (line : Nat) (start : Scope)
    (v : Variable) : Prop where
  bound : v ∈ t.bindings ∧ v.name = name ∧ v.location.startLine ≤ line
  starts : start ∈ t.containing line
  /-- Of the scopes at the line from which the name can be met, the start is the
  narrowest, and the latest of these. -/
  first : ∀ u ∈ t.containing line, (∃ a ∈ t.ancestors u.id, t.Binds name line a) →
    start.width < u.width ∨ start.width = u.width ∧ u.id ≤ start.id
  /-- Of the scopes around the start, that of the variable is the first to bind the name. -/
  nearest : ∃ inner outer, t.ancestors start.id = inner ++ v.scope :: outer ∧
    ∀ a ∈ inner, ¬ t.Binds name line a

/-- The order in which the scopes at a line are taken. -/
theorem pairwise_bySpecificity (t : ScopeTree) (line : Nat) :
    (t.bySpecificity line).Pairwise fun a b =>
      a.width < b.width ∨ a.width = b.width ∧ b.id ≤ a.id := by
  have hsorted : (t.bySpecificity line).Pairwise fun a b =>
      (decide (a.width < b.width) || (a.width == b.width && decide (b.id ≤ a.id))) = true := by
    refine List.pairwise_mergeSort ?_ ?_ _
    · intro a b c hab hbc
      simp only [Bool.or_eq_true, Bool.and_eq_true, decide_eq_true_eq, beq_iff_eq] at *
      omega
    · intro a b
      simp only [Bool.or_eq_true, Bool.and_eq_true, decide_eq_true_eq, beq_iff_eq]
      omega
  exact hsorted.imp fun hab => by simpa using hab

theorem resolve?_eq (t : ScopeTree) (name : String) (line : Nat) :
    t.resolve? name line
      = (t.bySpecificity line).findSome? fun s =>
        (t.ancestors s.id).findSome? (t.lookup? name line) := by
  rw [resolve?]
  induction t.bySpecificity line with
  | nil => rfl
  | cons s ss ih =>
    rw [List.flatMap_cons, List.findSome?_append, ih, List.findSome?_cons]
    show ((t.ancestors s.id).findSome? (t.lookup? name line)).or _ = _
    cases (t.ancestors s.id).findSome? (t.lookup? name line) <;> rfl

/-- **A name is found in the nearest scope around the first from which it can be met.** -/
theorem Valid.exists_resolves (h : Valid t) {id : Int} (hid : t.resolve? name line = some id) :
    ∃ start v, t.Resolves name line start v ∧ v.id = id := by
  rw [resolve?_eq] at hid
  obtain ⟨passed, start, later, hall, hfound, hpassed⟩ := List.findSome?_eq_some_iff.1 hid
  obtain ⟨inner, a, outer, hchain, hlookup, hinner⟩ := List.findSome?_eq_some_iff.1 hfound
  obtain ⟨v, hv, hvid, rfl, hname, hle⟩ := h.exists_of_lookup? hlookup
  have hmem : ∀ s, s ∈ t.containing line ↔ s ∈ passed ++ start :: later := by
    intro s
    rw [← hall]
    exact List.mem_mergeSort.symm
  -- The scopes passed over meet no binding, and those after the start are no narrower.
  refine ⟨start, v, ⟨⟨hv, hname, hle⟩, (hmem start).2 (by simp), ?_, inner, outer, hchain, ?_⟩,
    hvid⟩
  · rintro u hu ⟨b, hb, hbinds⟩
    have hmeets : (t.ancestors u.id).findSome? (t.lookup? name line) ≠ none := by
      intro hnone
      exact h.lookup?_eq_none_iff.1 (List.findSome?_eq_none_iff.1 hnone b hb) hbinds
    rcases List.mem_append.1 ((hmem u).1 hu) with hu | hu
    · exact absurd (hpassed u hu) hmeets
    · rcases List.mem_cons.1 hu with rfl | hu
      · exact .inr ⟨rfl, Nat.le_refl _⟩
      · have hsorted := t.pairwise_bySpecificity line
        rw [hall] at hsorted
        exact (List.pairwise_cons.1 (List.pairwise_append.1 hsorted).2.1).1 u hu
  · exact fun b hb => h.lookup?_eq_none_iff.1 (hinner b hb)

/-! ### Narrowest scopes -/

/-- No scope at a line that binds a name is narrower. -/
def Narrowest (t : ScopeTree) (name : String) (line : Nat) (s : Scope) : Prop :=
  ∀ u ∈ t.containing line, t.Binds name line u.id → s.width ≤ u.width

/-- The scopes at a line stand one inside the other. -/
def NestedAt (t : ScopeTree) (line : Nat) : Prop :=
  ∀ u ∈ t.containing line, ∀ w ∈ t.containing line,
    u.id ∈ t.ancestors w.id ∨ w.id ∈ t.ancestors u.id

instance (t : ScopeTree) (line : Nat) : Decidable (t.NestedAt line) :=
  inferInstanceAs (Decidable (∀ u ∈ t.containing line, ∀ w ∈ t.containing line, _ ∨ _))

section

variable {start s : Scope} {v : Variable}

theorem Resolves.binds (hr : t.Resolves name line start v) : t.Binds name line v.scope :=
  ⟨v, hr.bound.1, rfl, hr.bound.2⟩

theorem Resolves.mem_ancestors (hr : t.Resolves name line start v) :
    v.scope ∈ t.ancestors start.id := by
  obtain ⟨inner, outer, hchain, -⟩ := hr.nearest
  rw [hchain]
  simp

/-- The scope of a variable that is found lies around the start, so it is one at the line. -/
theorem Valid.mem_containing_of_resolves (h : Valid t) (hr : t.Resolves name line start v)
    (hs : t.scopes[v.scope]? = some s) : s ∈ t.containing line := by
  have hstart : HasLine t line start.id :=
    ⟨start, h.getElem?_id hr.starts, (mem_containing.1 hr.starts).2⟩
  obtain ⟨q, hq, hlines⟩ := h.hasLine_of_mem_outward hstart hr.mem_ancestors
  obtain rfl : s = q := Option.some.inj (hs.symm.trans hq)
  exact mem_containing.2 ⟨List.mem_of_getElem? hs, hlines⟩

/-- A scope around the start that binds the name is no narrower than the one found. -/
theorem Valid.width_le_of_mem_ancestors (h : Valid t) (hr : t.Resolves name line start v)
    (hs : t.scopes[v.scope]? = some s) {u : Scope} (hu : u ∈ t.containing line)
    (hbinds : t.Binds name line u.id) (haround : u.id ∈ t.ancestors start.id) :
    s.width ≤ u.width := by
  obtain ⟨inner, outer, hchain, hinner⟩ := hr.nearest
  have hpairwise : (t.ancestors start.id).Pairwise t.NoWider := h.pairwise_outward _ _
  rw [hchain] at haround hpairwise
  rcases List.mem_append.1 haround with hm | hm
  · exact absurd hbinds (hinner u.id hm)
  · rcases List.mem_cons.1 hm with heq | hm
    · rw [Option.some.inj (hs.symm.trans (heq ▸ h.getElem?_id hu))]
    · exact (List.pairwise_cons.1 (List.pairwise_append.1 hpairwise).2.1).1 u.id hm s u hs
        (h.getElem?_id hu)

/-- The scope that is found is as narrow as any exactly when one of the
narrowest stands around the start. -/
theorem Valid.narrowest_iff (h : Valid t) (hr : t.Resolves name line start v)
    (hs : t.scopes[v.scope]? = some s) :
    t.Narrowest name line s ↔ ∃ u ∈ t.containing line, t.Binds name line u.id ∧
      t.Narrowest name line u ∧ u.id ∈ t.ancestors start.id := by
  constructor
  · intro hnarrow
    have hid : s.id = v.scope := h.id_eq v.scope s hs
    refine ⟨s, h.mem_containing_of_resolves hr hs, ?_, hnarrow, ?_⟩
    · rw [hid]
      exact hr.binds
    · rw [hid]
      exact hr.mem_ancestors
  · rintro ⟨u, hu, hbinds, hnarrow, haround⟩ w hw hwbinds
    exact (h.width_le_of_mem_ancestors hr hs hu hbinds haround).trans (hnarrow w hw hwbinds)

/-- Among scopes that stand one inside the other the narrowest is found. -/
theorem Valid.narrowest_of_nestedAt (h : Valid t) (hr : t.Resolves name line start v)
    (hs : t.scopes[v.scope]? = some s) (hnested : t.NestedAt line) : t.Narrowest name line s := by
  intro u hu hbinds
  refine h.width_le_of_mem_ancestors hr hs hu hbinds ?_
  rcases hnested u hu start hr.starts with haround | hinside
  · exact haround
  · -- The start comes before the scopes inside it only if it is the same scope.
    have hfirst := hr.first u hu ⟨u.id, self_mem_ancestors t u.id, hbinds⟩
    obtain ⟨q, hq, hwidth, hle⟩ := h.around_of_mem_outward (h.getElem?_id hu) hinside
    rw [← Option.some.inj ((h.getElem?_id hr.starts).symm.trans hq)] at hwidth
    have hid : u.id = start.id := by omega
    rw [hid]
    exact self_mem_ancestors t start.id

end

/-- **The scope in which a name is found**, in every valid tree: it is as narrow as any that binds
the name exactly when one of the narrowest stands around the start of the search, and so whenever
the scopes at the line stand one inside the other. -/
theorem Valid.exists_resolves_narrowest_iff (h : Valid t) {id : Int}
    (hid : t.resolve? name line = some id) :
    ∃ start v s, t.Resolves name line start v ∧ v.id = id ∧ t.scopes[v.scope]? = some s ∧
      (t.Narrowest name line s ↔ ∃ u ∈ t.containing line, t.Binds name line u.id ∧
        t.Narrowest name line u ∧ u.id ∈ t.ancestors start.id) ∧
      (t.NestedAt line → t.Narrowest name line s) := by
  obtain ⟨start, v, hr, hvid⟩ := h.exists_resolves hid
  obtain ⟨i, hi⟩ := List.getElem?_of_mem hr.bound.1
  obtain ⟨s, hs, -⟩ := h.home i v hi
  exact ⟨start, v, s, hr, hvid, hs, h.narrowest_iff hr hs, h.narrowest_of_nestedAt hr hs⟩

/-- The name of a variable in view stands for something. -/
theorem Valid.exists_resolve?_of_inView (h : Valid t)
    (hname : name ∈ (t.inView line).map (·.name)) : ∃ id, t.resolve? name line = some id := by
  rw [← h.visibleAt_eq_inView] at hname
  obtain ⟨v, hv, rfl⟩ := List.mem_map.1 hname
  exact Option.isSome_iff_exists.1 (h.resolve?_isSome hv)

end ScopeTree

open ScopeTree ParsedScript

/-- **The scope in which a name is found.**  For every script, name and line at which the name
stands for a variable: the search starts from a scope at the line and ends in the scope of the
variable (`Resolves`), and no scope at the line that binds the name is narrower than that one
exactly when one of the narrowest of them stands around the start.  This is always so when the
scopes at the line stand one inside the other. -/
theorem ParsedScript.resolve?_narrowest_iff {source : String} {p : ParsedScript}
    (h : ParsedScript.parse? source = some p) {name : String} {line : Nat} {id : Int}
    (hid : p.scopes.resolve? name line = some id) :
    ∃ start v s, p.scopes.Resolves name line start v ∧ v.id = id ∧
      p.scopes.scopes[v.scope]? = some s ∧
      ((∀ u ∈ p.scopes.containing line, p.scopes.Binds name line u.id → s.width ≤ u.width) ↔
        ∃ u ∈ p.scopes.containing line, p.scopes.Binds name line u.id ∧
          p.scopes.Narrowest name line u ∧ u.id ∈ p.scopes.ancestors start.id) ∧
      (p.scopes.NestedAt line →
        ∀ u ∈ p.scopes.containing line, p.scopes.Binds name line u.id → s.width ≤ u.width) := by
  have hvalid : p.scopes.Valid := scopes_eq_build h ▸ valid_build source (inOrder_of_parse? h)
  exact hvalid.exists_resolves_narrowest_iff hid

/-- The same name at the top of a script and in a block. -/
def nestedScript : String := "let a;\n\x7blet a\x7d"

/-- The scopes at the line stand one inside the other, and the name stands for
the variable of the block. -/
theorem ParsedScript.resolve?_narrowest_nestedScript :
    ∃ p, ParsedScript.parse? nestedScript = some p ∧ p.scopes.resolve? "a" 2 = some 2 ∧
      p.scopes.NestedAt 2 ∧
      ∃ v s, v ∈ p.scopes.bindings ∧ v.id = 2 ∧ p.scopes.scopes[v.scope]? = some s ∧
        ∀ u ∈ p.scopes.containing 2, p.scopes.Binds "a" 2 u.id → s.width ≤ u.width := by
  have heval : (ParsedScript.parse? nestedScript).map (fun p =>
      (p.scopes.scopes, p.scopes.bindings, (p.scopes.inView 2).map (·.name),
        decide (p.scopes.NestedAt 2))) =
      some ([⟨0, .global, none, 1, 2, []⟩, ⟨1, .module, some 0, 1, 2, [0]⟩,
        ⟨2, .block, some 1, 2, 2, [1]⟩],
        [⟨1, "a", .lexical, ⟨1, 4, 1, 5⟩, 1⟩, ⟨2, "a", .lexical, ⟨2, 5, 2, 6⟩, 2⟩], ["a", "a"],
        true) := by
    decide +kernel
  obtain ⟨p, hp, he⟩ := Option.map_eq_some_iff.1 heval
  simp only [Prod.mk.injEq] at he
  obtain ⟨hscopes, hbindings, hvisible, hnested⟩ := he
  have hvalid : p.scopes.Valid :=
    scopes_eq_build hp ▸ valid_build nestedScript (inOrder_of_parse? hp)
  obtain ⟨id, hid⟩ := hvalid.exists_resolve?_of_inView (hvisible ▸ List.mem_cons_self)
  obtain ⟨start, v, s, hr, rfl, hs, -, hnarrow⟩ := ParsedScript.resolve?_narrowest_iff hp hid
  have hall := hnarrow (of_decide_eq_true hnested)
  have hblock : s.width ≤ 0 := by
    refine hall ⟨2, .block, some 1, 2, 2, [1]⟩ ?_ ?_
    · rw [containing, hscopes]
      decide
    · exact ⟨⟨2, "a", .lexical, ⟨2, 5, 2, 6⟩, 2⟩, by rw [hbindings]; simp, rfl, rfl, by decide⟩
  have hv : v.id = 2 := by
    have hmem := hr.bound.1
    rw [hbindings, List.mem_pair] at hmem
    rcases hmem with rfl | rfl
    · -- The scope of the other variable is the module, which has two lines.
      rw [hscopes] at hs
      obtain rfl := Option.some.inj hs
      exact absurd hblock (by decide)
    · rfl
  rw [hv] at hid
  exact ⟨p, hp, hid, of_decide_eq_true hnested, v, s, hr.bound.1, hv, hs, hall⟩

/-- The same script with a second block on the line. -/
def siblingScript : String := "let a;\n\x7blet a\x7d\x7b\x7d"

/-- **An empty block hides the variable of the block beside it.**  The name stands for the variable
at the top, although the block that binds it on the line is narrower than the module. -/
theorem ParsedScript.resolve?_siblingScript :
    ∃ p v s u, ParsedScript.parse? siblingScript = some p ∧ p.scopes.resolve? "a" 2 = some v.id ∧
      v ∈ p.scopes.bindings ∧ p.scopes.scopes[v.scope]? = some s ∧ u ∈ p.scopes.containing 2 ∧
      p.scopes.Binds "a" 2 u.id ∧ u.width < s.width := by
  have heval : (ParsedScript.parse? siblingScript).map (fun p =>
      (p.scopes.scopes, p.scopes.bindings, (p.scopes.inView 2).map (·.name))) =
      some ([⟨0, .global, none, 1, 2, []⟩, ⟨1, .module, some 0, 1, 2, [0]⟩,
        ⟨2, .block, some 1, 2, 2, [1]⟩, ⟨3, .block, some 1, 2, 2, []⟩],
        [⟨1, "a", .lexical, ⟨1, 4, 1, 5⟩, 1⟩, ⟨2, "a", .lexical, ⟨2, 5, 2, 6⟩, 2⟩],
        ["a", "a"]) := by
    decide +kernel
  obtain ⟨p, hp, he⟩ := Option.map_eq_some_iff.1 heval
  simp only [Prod.mk.injEq] at he
  obtain ⟨hscopes, hbindings, hvisible⟩ := he
  have hvalid : p.scopes.Valid :=
    scopes_eq_build hp ▸ valid_build siblingScript (inOrder_of_parse? hp)
  obtain ⟨id, hid⟩ := hvalid.exists_resolve?_of_inView (hvisible ▸ List.mem_cons_self)
  obtain ⟨start, v, hr, rfl⟩ := hvalid.exists_resolves hid
  have hcontaining : p.scopes.containing 2 = p.scopes.scopes := by
    rw [containing, hscopes]
    decide
  have hbinds : ∀ w ∈ p.scopes.bindings, p.scopes.Binds "a" 2 w.scope := by
    intro w hw
    refine ⟨w, hw, rfl, ?_⟩
    rw [hbindings, List.mem_pair] at hw
    rcases hw with rfl | rfl <;> decide
  have hchain : p.scopes.ancestors 3 = [3, 1, 0] := by
    rw [ancestors, hscopes]
    simp [outward, hscopes]
  -- The search starts from the empty block, around which the name is bound at the top.
  have hstart : start.id = 3 := by
    have hfirst := hr.first ⟨3, .block, some 1, 2, 2, []⟩ (by rw [hcontaining, hscopes]; simp)
      ⟨1, by rw [hchain]; simp, hbinds ⟨1, "a", .lexical, ⟨1, 4, 1, 5⟩, 1⟩
        (by rw [hbindings]; simp)⟩
    have hlatest : ∀ w ∈ p.scopes.containing 2, w.width < 0 ∨ w.width = 0 ∧ 3 ≤ w.id →
        w.id = 3 := by
      rw [hcontaining, hscopes]
      decide
    exact hlatest start hr.starts hfirst
  have hscope := hr.mem_ancestors
  rw [hstart, hchain] at hscope
  have hv : v = ⟨1, "a", .lexical, ⟨1, 4, 1, 5⟩, 1⟩ := by
    have hmem := hr.bound.1
    rw [hbindings, List.mem_pair] at hmem
    rcases hmem with rfl | rfl
    · rfl
    · exact absurd hscope (by decide)
  refine ⟨p, v, ⟨1, .module, some 0, 1, 2, [0]⟩, ⟨2, .block, some 1, 2, 2, [1]⟩, hp, hid,
    hr.bound.1, ?_, ?_, ?_, by decide⟩
  · rw [hv, hscopes]
    rfl
  · rw [hcontaining, hscopes]
    simp
  · exact hbinds ⟨2, "a", .lexical, ⟨2, 5, 2, 6⟩, 2⟩ (by rw [hbindings]; simp)

end FlowAnalysis
