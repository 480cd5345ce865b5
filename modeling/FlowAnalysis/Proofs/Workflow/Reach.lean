import FlowAnalysis.Proofs.Bubble.Recording
import FlowAnalysis.Proofs.Workflow.Leaves
import FlowAnalysis.Proofs.Workflow.Territory

/-!
# Where the builder looks

What an item leads to depends on the progress made: a bubble is placed once, and a callable is
expanded once.  `Item.next` is what it leads to when nothing has been done before, and `Looked` is
all that the builder can come to in this way from the entry point.  The places that are left out
are those that no item leads to, such as the left side of a `for` over a collection or the
arguments of a call of `action`.

Nothing is lost by what has been done before: every item that can be looked at has its turn
(`FromEntry.visited_of_looked`), so every bubble that is seen at one of them is placed
(`FromEntry.mem_placed_of_seen`).  What can be looked at is found by a search (`mem_search_iff`).
-/

namespace FlowAnalysis.Workflow

open Script Node

/-! ### Bubbles and what has been placed -/

section

variable {s : Setting} {used : List Int} {e : Node} {c : Construction} {name : String}

/-- A bubble is a candidate when it is one at the start and has not been placed since. -/
theorem candidate_iff {l : Location} {b : Bubble} :
    candidate s used name l b = true ↔ b.variableId ∉ used ∧ candidate s [] name l b = true := by
  simp [candidate, and_assoc]

theorem line_of_candidate {l : Location} {b : Bubble} (h : candidate s used name l b = true) :
    b.location.startLine = l.startLine := by
  simp only [candidate, Bool.and_eq_true, beq_iff_eq] at h
  exact h.1.1.2

theorem distance_self (col : Nat) : distance col col = 0 := by
  simp [distance]

theorem eq_of_distance_eq_zero {a b : Nat} (h : distance a b = 0) : a = b := by
  rw [distance] at h
  split at h <;> omega

theorem nearest?_eq_none {col : Nat} {bs : List Bubble} (h : nearest? col bs = none) : bs = [] := by
  cases bs with
  | nil => rfl
  | cons b bs => cases h

/-- A construction is found to be a bubble when there is a candidate for it. -/
theorem exists_findBubble? (hc : Construction.of? e = some c) (hn : c.className? = some name)
    {b : Bubble} (hb : b ∈ s.bubbles.values) (hcand : candidate s used name e.location b = true) :
    ∃ id, findBubble? s used e = some (id, c) := by
  have hmem : b ∈ s.bubbles.values.filter (candidate s used name e.location) :=
    List.mem_filter.2 ⟨hb, hcand⟩
  cases hnear : nearest? e.location.startCol
      (s.bubbles.values.filter (candidate s used name e.location)) with
  | none =>
    rw [nearest?_eq_none hnear] at hmem
    cases hmem
  | some d =>
    refine ⟨d.variableId, ?_⟩
    simp [findBubble?, hc, hn, hnear]

/-- The bubbles and the callables of a setting stand in a script: every bubble under its own id and
in its own place, and the bodies of the callables apart from each other. -/
structure Situated (s : Setting) (root : Node) : Prop where
  housed : Housed root s.calls
  keyed : Bubble.Keyed s.bubbles
  distinct : Bubble.Distinct s.bubbles

/-- A bubble that starts where it is constructed is the one found there. -/
theorem eq_of_findBubble? {root : Node} (hs : Situated s root) (hc : Construction.of? e = some c)
    (hn : c.className? = some name) {b : Bubble} (hb : b ∈ s.bubbles.values)
    (hcand : candidate s used name e.location b = true)
    (hcol : b.location.startCol = e.location.startCol) {id : Int} {c' : Construction}
    (hfind : findBubble? s used e = some (id, c')) : b.variableId = id := by
  obtain ⟨name', d, hc', hn', hd, hdcand, rfl, hnear⟩ := findBubble?_spec hfind
  rw [hc] at hc'
  cases hc'
  rw [hn] at hn'
  cases hn'
  -- The one found is as near as the bubble, so it starts in the same place.
  have hle := hnear b hb hcand
  rw [hcol, distance_self, Nat.le_zero] at hle
  refine congrArg _ (hs.distinct b hb d hd (Location.startKey_eq_iff.2 ⟨?_, ?_⟩))
  · rw [line_of_candidate hcand, line_of_candidate hdcand]
  · rw [hcol, eq_of_distance_eq_zero hle]

/-- What is found once bubbles have been placed is found before. -/
theorem findBubble?_nil_of_some {id : Int} (h : findBubble? s used e = some (id, c)) :
    ∃ id', findBubble? s [] e = some (id', c) := by
  obtain ⟨name, b, hc, hn, hb, hcand, _⟩ := findBubble?_spec h
  exact exists_findBubble? hc hn hb (candidate_iff.1 hcand).2

theorem Item.claim?_nil_of_some {i : Item} {id : Int} (h : i.claim? s used = some (id, c)) :
    ∃ id', i.claim? s [] = some (id', c) := by
  obtain ⟨e, he, hf⟩ := Option.bind_eq_some_iff.1 h
  obtain ⟨id', hid⟩ := findBubble?_nil_of_some hf
  exact ⟨id', Option.bind_eq_some_iff.2 ⟨e, he, hid⟩⟩

theorem Item.claim?_eq_none_of_nil {i : Item} (h : i.claim? s [] = none) :
    i.claim? s used = none := by
  cases hc : i.claim? s used with
  | none => rfl
  | some r =>
    obtain ⟨id', hid⟩ := claim?_nil_of_some (c := r.2) hc
    rw [h] at hid
    cases hid

end

/-! ### Looking without a memory -/

/-- Whether the body of a callable is looked at where it is called first. -/
def opensUp (s : Setting) (name : String) : Bool :=
  s.effects.contains name && s.options.expandMethodCalls && name != "handle"

theorem opensUp_iff {s : Setting} {name : String} :
    opensUp s name = true ↔
      name ∈ s.effects ∧ s.options.expandMethodCalls = true ∧ name ≠ "handle" := by
  simp [opensUp, and_assoc]

theorem expands_iff {s : Setting} {stack : List String} {p : Progress} {name : String} :
    expands s stack p name = true ↔
      name ∈ s.effects ∧ s.options.expandMethodCalls = true ∧ name ∉ p.expanded ∧ name ∉ stack := by
  simp [expands, and_assoc]

/-- What an item leads to when nothing has been placed or expanded before. -/
def Item.next (s : Setting) (i : Item) : List Item :=
  match i.claim? s [] with
  | some (_, c) => (argumentParts c.node).map .scan
  | none =>
    match i with
    | .enter name c => if opensUp s name then ofBody c else []
    | i => i.leads s.calls

namespace Item

variable {s : Setting} {i : Item}

theorem next_of_claim {id : Int} {c : Construction} (h : i.claim? s [] = some (id, c)) :
    i.next s = (argumentParts c.node).map scan := by
  unfold next
  rw [h]

theorem next_enter (s : Setting) (name : String) (c : Callable) :
    (enter name c).next s = if opensUp s name then ofBody c else [] := rfl

theorem next_of_claim?_eq_none (h : i.claim? s [] = none) (hi : ∀ name c, i ≠ enter name c) :
    i.next s = i.leads s.calls := by
  unfold next
  rw [h]
  cases i with
  | enter name c => exact absurd rfl (hi name c)
  | _ => rfl

end Item

/-- The items that the builder can come to. -/
inductive Looked (s : Setting) (start : List Item) : Item → Prop
  | start {i : Item} (h : i ∈ start) : Looked s start i
  | next {i j : Item} (h : Looked s start i) (hj : j ∈ i.next s) : Looked s start j

/-- A bubble is seen: an expression that can be looked at constructs its
class where the bubble is. -/
def Seen (s : Setting) (start : List Item) (b : Bubble) : Prop :=
  ∃ i e c name, Looked s start i ∧ i.expression? = some e ∧ Construction.of? e = some c ∧
    c.className? = some name ∧ candidate s [] name e.location b = true ∧
    b.location.startCol = e.location.startCol

/-! ### Looking everywhere -/

/-- All items that can be looked at, unless there are more than so many. -/
def Item.search (s : Setting) : Nat → List Item → Option (List Item)
  | _, [] => some []
  | 0, _ :: _ => none
  | k + 1, i :: is => (search s k (i.next s ++ is)).map (i :: ·)

section

variable {s : Setting} {start is l : List Item} {i j : Item} {k : Nat}

theorem looked_cons : Looked s (i :: is) j ↔ j = i ∨ Looked s (i.next s ++ is) j := by
  constructor
  · intro h
    induction h with
    | start h =>
      rcases List.mem_cons.1 h with rfl | h
      · exact .inl rfl
      · exact .inr (.start (List.mem_append.2 (.inr h)))
    | next _ hj ih =>
      rcases ih with rfl | ih
      · exact .inr (.start (List.mem_append.2 (.inl hj)))
      · exact .inr (.next ih hj)
  · rintro (rfl | h)
    · exact .start List.mem_cons_self
    · induction h with
      | start h =>
        rcases List.mem_append.1 h with h | h
        · exact .next (.start List.mem_cons_self) h
        · exact .start (List.mem_cons_of_mem _ h)
      | next _ hj ih => exact .next ih hj

theorem not_looked_nil : ¬ Looked s [] i := by
  intro h
  induction h with
  | start h => cases h
  | next _ _ ih => exact ih

/-- A search that ends finds exactly the items that can be looked at. -/
theorem mem_search_iff (h : Item.search s k is = some l) : j ∈ l ↔ Looked s is j := by
  fun_induction Item.search s k is generalizing l with
  | case1 =>
    cases h
    exact iff_of_false List.not_mem_nil not_looked_nil
  | case2 => cases h
  | case3 k i is ih =>
    obtain ⟨l', hl, rfl⟩ := Option.map_eq_some_iff.1 h
    rw [looked_cons, List.mem_cons, ih hl]

/-- Whether the expression at an item constructs a bubble in its place. -/
def Item.shows (s : Setting) (b : Bubble) (i : Item) : Bool :=
  match i.expression? with
  | none => false
  | some e =>
    match (Construction.of? e).bind (·.className?) with
    | none => false
    | some name =>
      candidate s [] name e.location b && b.location.startCol == e.location.startCol

/-- A bubble is seen when a search that ends finds an item that shows it. -/
theorem seen_iff_of_search (h : Item.search s k start = some l) {b : Bubble} :
    Seen s start b ↔ l.any (·.shows s b) = true := by
  rw [List.any_eq_true]
  constructor
  · rintro ⟨i, e, c, name, hi, he, hof, hname, hcand, hcol⟩
    refine ⟨i, (mem_search_iff h).2 hi, ?_⟩
    simp [Item.shows, he, hof, hname, hcand, hcol]
  · rintro ⟨i, hi, hshows⟩
    rw [Item.shows] at hshows
    split at hshows
    · cases hshows
    · next e he =>
      split at hshows
      · cases hshows
      · next name hc =>
        obtain ⟨c, hof, hname⟩ := Option.bind_eq_some_iff.1 hc
        obtain ⟨hcand, hcol⟩ := Bool.and_eq_true_iff.1 hshows
        exact ⟨i, e, c, name, (mem_search_iff h).1 hi, he, hof, hname, hcand, by simpa using hcol⟩

end

/-! ### Turns of a run -/

namespace Runs

variable {s : Setting} {js : List Job} {p q : Progress} {ts : List Turn} {t : Turn}

/-- What one turn keeps holds before every turn. -/
theorem invariant {I : List Job → Progress → Prop}
    (step : ∀ {j rest p}, I (j :: rest) p → I ((j.step s p).jobs ++ rest) (j.step s p).after)
    (h : Runs s js p ts q) (h₀ : I js p) : ∀ t ∈ ts, ∃ rest, I (t.job :: rest) t.progress := by
  induction h with
  | done => exact fun t ht => absurd ht List.not_mem_nil
  | @turn j rest p q ts _ ih =>
    intro t ht
    rcases List.mem_cons.1 ht with rfl | ht
    · exact ⟨rest, h₀⟩
    · exact ih (step h₀) t ht

/-- Every job of the agenda has its turn. -/
theorem exists_turn (h : Runs s js p ts q) {j : Job} (hj : j ∈ js) : ∃ t ∈ ts, t.job = j := by
  induction h with
  | done => cases hj
  | @turn k rest p q ts _ ih =>
    rcases List.mem_cons.1 hj with rfl | hj
    · exact ⟨_, List.mem_cons_self, rfl⟩
    · obtain ⟨t, ht, he⟩ := ih (List.mem_append.2 (.inr hj))
      exact ⟨t, List.mem_cons_of_mem _ ht, he⟩

/-- Every job that a turn leads to has its turn. -/
theorem exists_turn_of_step (h : Runs s js p ts q) (ht : t ∈ ts) {j : Job}
    (hj : j ∈ (t.step s).jobs) : ∃ u ∈ ts, u.job = j := by
  induction h with
  | done => cases ht
  | @turn k rest p q ts h ih =>
    rcases List.mem_cons.1 ht with rfl | ht
    · obtain ⟨u, hu, he⟩ := h.exists_turn (List.mem_append.2 (.inl hj))
      exact ⟨u, List.mem_cons_of_mem _ hu, he⟩
    · obtain ⟨u, hu, he⟩ := ih ht
      exact ⟨u, List.mem_cons_of_mem _ hu, he⟩

/-- What has been placed before a turn, or is placed by it, is placed in the end. -/
theorem used_subset (h : Runs s js p ts q) (ht : t ∈ ts) : (t.step s).after.used ⊆ q.used := by
  induction h with
  | done => cases ht
  | @turn k rest p q ts h ih =>
    rcases List.mem_cons.1 ht with rfl | ht
    · rw [h.used_eq]
      exact List.subset_append_right _ _
    · exact ih ht

/-- A callable that has been expanded was expanded at a turn, if not before. -/
theorem exists_expansion (h : Runs s js p ts q) (ht : t ∈ ts) {name : String}
    (hn : name ∈ t.progress.expanded) :
    name ∈ p.expanded ∨ ∃ u ∈ ts, ∃ c, u.job.item = .enter name c ∧
      expands s u.job.stack u.progress name = true := by
  induction h with
  | done => cases ht
  | @turn k rest p q ts _ ih =>
    rcases List.mem_cons.1 ht with rfl | ht
    · exact .inl hn
    · rcases ih ht with hin | ⟨u, hu, hc⟩
      · have hd := k.does_step s p
        generalize hst : k.step s p = st at hin hd
        cases hd with
        | enter hi he =>
          rcases List.mem_cons.1 hin with rfl | hin
          · exact .inr ⟨⟨p, k⟩, List.mem_cons_self, _, hi, he⟩
          · exact .inl hin
        | claim | pass | follow => exact .inl hin
      · exact .inr ⟨u, List.mem_cons_of_mem _ hu, hc⟩

end Runs

/-- Around every job are the entry point and callables that have been expanded. -/
def Guarded (js : List Job) (p : Progress) : Prop :=
  ∀ j ∈ js, "handle" ∈ j.stack ∧ ∀ name ∈ j.stack, name = "handle" ∨ name ∈ p.expanded

theorem guarded_step {s : Setting} {j : Job} {rest : List Job} {p : Progress}
    (h : Guarded (j :: rest) p) : Guarded ((j.step s p).jobs ++ rest) (j.step s p).after := by
  obtain ⟨hj, hrest⟩ := List.forall_mem_cons.1 h
  have hd := j.does_step s p
  generalize j.step s p = st at hd ⊢
  cases hd with
  | claim | follow =>
    intro k hk
    rcases List.mem_append.1 hk with hk | hk
    · rw [(Job.mem_of_mem_jobs hk).1]
      exact hj
    · exact hrest k hk
  | @enter name c hi he =>
    intro k hk
    rcases List.mem_append.1 hk with hk | hk
    · rw [(Job.mem_of_mem_jobs hk).1]
      refine ⟨List.mem_cons_of_mem _ hj.1, List.forall_mem_cons.2 ⟨.inr List.mem_cons_self, ?_⟩⟩
      exact fun other ho => (hj.2 other ho).imp_right (List.mem_cons_of_mem _)
    · obtain ⟨hhandle, hstack⟩ := hrest k hk
      exact ⟨hhandle, fun other ho => (hstack other ho).imp_right (List.mem_cons_of_mem _)⟩
  | pass => exact hrest

/-- A callable that is expanded is not the entry point. -/
theorem Guarded.ne_of_expands {s : Setting} {js : List Job} {p : Progress} {j : Job} {name : String}
    (h : Guarded js p) (hj : j ∈ js) (he : expands s j.stack p name = true) : name ≠ "handle" := by
  rintro rfl
  exact (expands_iff.1 he).2.2.2 (h j hj).1

theorem guarded_start (start : List Item) : Guarded (jobs ["handle"] start) {} := by
  intro j hj
  rw [(Job.mem_of_mem_jobs hj).1]
  exact ⟨List.mem_cons_self, fun name hn => .inl (List.mem_singleton.1 hn)⟩

/-! ### Every item has its turn -/

section

variable {s : Setting} {root : Node} {start : List Item} {ts : List Turn} {q : Progress}

/-- An item has had its turn. -/
def Visited (ts : List Turn) (i : Item) : Prop := ∃ t ∈ ts, t.job.item = i

/-- A run from the entry point of a script. -/
structure FromEntry (s : Setting) (root : Node) (start : List Item) (ts : List Turn)
    (q : Progress) :
    Prop extends Situated s root where
  runs : Runs s (jobs ["handle"] start) {} ts q
  start : ∀ i ∈ start, i.In root s.calls

namespace FromEntry

theorem guarded (h : FromEntry s root start ts q) {t : Turn} (ht : t ∈ ts) :
    ∀ name ∈ t.job.stack, name = "handle" ∨ name ∈ t.progress.expanded := by
  obtain ⟨rest, hg⟩ := h.runs.invariant guarded_step (guarded_start start) t ht
  exact (hg t.job List.mem_cons_self).2

/-- Every item that has its turn stands in the script. -/
theorem in_of_visited (h : FromEntry s root start ts q) {i : Item} (hi : Visited ts i) :
    i.In root s.calls := by
  obtain ⟨t, ht, rfl⟩ := hi
  have hstart : ∀ j ∈ jobs ["handle"] start, j.item.In root s.calls := fun j hj =>
    h.start j.item (Job.mem_of_mem_jobs hj).2
  have hstep : ∀ {j : Job} {rest : List Job} {p : Progress},
      (∀ k ∈ j :: rest, k.item.In root s.calls) →
      ∀ k ∈ (j.step s p).jobs ++ rest, k.item.In root s.calls := by
    intro j rest p hin k hk
    rcases List.mem_append.1 hk with hk | hk
    · exact Job.in_step h.housed (hin j List.mem_cons_self) hk
    · exact hin k (List.mem_cons_of_mem _ hk)
  obtain ⟨rest, hin⟩ :=
    h.runs.invariant (I := fun js _ => ∀ j ∈ js, Item.In root s.calls j.item) hstep hstart t ht
  exact hin t.job List.mem_cons_self

theorem visited_of_step (h : FromEntry s root start ts q) {t : Turn} (ht : t ∈ ts) :
    ∀ k ∈ (t.job.step s t.progress).jobs, Visited ts k.item := by
  intro k hk
  obtain ⟨u, hu, rfl⟩ := h.runs.exists_turn_of_step ht hk
  exact ⟨u, hu, rfl⟩

/-- What an item leads to has its turn: the arguments when the item is a bubble, and otherwise
everything that it leads to. -/
theorem visited_cases (h : FromEntry s root start ts q) {i : Item} (hi : Visited ts i)
    (hne : ∀ name c, i ≠ .enter name c) :
    (∃ e c, i.expression? = some e ∧ Construction.of? e = some c ∧
        ∀ a ∈ argumentParts c.node, Visited ts (.scan a)) ∨
      ∀ j ∈ i.leads s.calls, Visited ts j := by
  obtain ⟨t, ht, rfl⟩ := hi
  have hnext := h.visited_of_step ht
  have hd := t.job.does_step s t.progress
  generalize t.job.step s t.progress = st at hd hnext
  cases hd with
  | claim hc =>
    obtain ⟨_, e, _, he, hof⟩ := Item.exists_node?_of_claim? hc
    refine .inl ⟨e, _, he, hof, fun a ha => ?_⟩
    exact hnext _ (List.mem_map_of_mem (List.mem_map_of_mem ha))
  | follow => exact .inr fun j hj => hnext _ (List.mem_map_of_mem hj)
  | enter hi | pass hi => exact absurd hi (hne _ _)

/-- The callable that a construction calls is none that is known. -/
theorem known?_eq_none_of_wraps {calls : CallTable} {x e : Node} (hw : Wraps x e) :
    known? calls e = none := by
  rw [known?]
  split
  · next hk => rw [hw.stripAwait.callTarget?_eq_none (by simpa using hk), Option.bind_none]
  · rfl

theorem of?_eq_none_of_kind {n : Node}
    (hk : n.kind ≠ .newExpression ∧ n.kind ≠ .parenthesizedExpression ∧ n.kind ≠ .awaitExpression ∧
      n.kind ≠ .callExpression) : Construction.of? n = none := by
  cases hc : Construction.of? n with
  | none => rfl
  | some c => exact absurd rfl ((wraps_of_of? hc).kind_ne hk)

/-- What cannot be a construction or a call is searched in all its parts. -/
theorem visited_parts (h : FromEntry s root start ts q) {n : Node} (hv : Visited ts (.scan n))
    (hk : n.kind ≠ .newExpression ∧ n.kind ≠ .parenthesizedExpression ∧ n.kind ≠ .awaitExpression ∧
      n.kind ≠ .callExpression) : ∀ m ∈ n.parts, Visited ts (.scan m) := by
  rcases h.visited_cases hv (by nofun) with ⟨e, c, he, hof, _⟩ | hleads
  · cases he
    rw [of?_eq_none_of_kind hk] at hof
    cases hof
  · intro m hm
    refine hleads _ ?_
    rw [Item.leads, if_neg (by simpa using hk.2.2.2)]
    exact List.mem_map_of_mem hm

/-- A construction that is searched is placed or searched in all its parts. -/
theorem visited_wraps (h : FromEntry s root start ts q) {x e : Node} (hw : Wraps x e)
    (hv : Visited ts (.scan e)) :
    (∀ a ∈ argumentParts x, Visited ts (.scan a)) ∨ ∀ m ∈ e.parts, Visited ts (.scan m) := by
  -- A construction is no known call, so when it is not placed it is searched like anything else.
  rcases h.visited_cases hv (by nofun) with ⟨e', c, he, hof, hargs⟩ | hleads
  · cases he
    rw [hw.unique (wraps_of_of? hof)]
    exact .inl hargs
  · refine .inr fun m hm => hleads _ ?_
    rw [Item.leads, known?_eq_none_of_wraps hw, ite_self]
    exact List.mem_map_of_mem hm

/-- When all parts of a construction are searched, so are the arguments of the class. -/
theorem visited_arguments_of_parts (h : FromEntry s root start ts q) {x e : Node} (hw : Wraps x e)
    (he : Placed e) (hv : ∀ m ∈ e.parts, Visited ts (.scan m)) :
    ∀ a ∈ argumentParts x, Visited ts (.scan a) := by
  -- The parts of every wrapper lead one wrapper further in, down to the `new` expression.
  induction hw with
  | @here hk =>
    intro a ha
    obtain ⟨g, hg, hag⟩ := mem_argumentParts.1 ha
    have hgm := mem_children_of_child? hg
    have hshape := he.shaped (List.ne_nil_of_mem hgm)
    rw [hk] at hshape
    have hgk := hshape.2 g hgm (role_of_child? hg)
    have hgp : g ∈ x.parts := by
      refine List.mem_filter.2 ⟨hgm, ?_⟩
      rcases hgk with hgk | hgk <;> simp [isNamed, isComment, hgk]
    refine h.visited_parts (hv g hgp) ?_ a hag
    rcases hgk with hgk | hgk <;> simp [hgk]
  | @inside e m hk hm hw ih =>
    have hmm := mem_children_of_part? hm
    rcases h.visited_wraps hw (hv m (hw.mem_parts hmm)) with hargs | hparts
    · exact hargs
    · exact ih (he.of_mem_children hmm) hparts
  | @action e f o property hk hf hfk _ _ ho hw ih =>
    have hfm := mem_children_of_child? hf
    have hom := mem_children_of_child? ho
    have hfp : f ∈ e.parts := List.mem_filter.2 ⟨hfm, by simp [isNamed, isComment, hfk]⟩
    have hov := h.visited_parts (hv f hfp) (by simp [hfk]) o (hw.mem_parts hom)
    rcases h.visited_wraps hw hov with hargs | hparts
    · exact hargs
    · exact ih ((he.of_mem_children hfm).of_mem_children hom) hparts

/-- When a construction is searched, so are the arguments of the class. -/
theorem visited_arguments_of_scan (h : FromEntry s root start ts q) {x e : Node} (hw : Wraps x e)
    (he : Placed e) (hv : Visited ts (.scan e)) : ∀ a ∈ argumentParts x, Visited ts (.scan a) := by
  rcases h.visited_wraps hw hv with hargs | hparts
  · exact hargs
  · exact h.visited_arguments_of_parts hw he hparts

/-- Whatever item a construction is looked at by, the arguments of the class are searched. -/
theorem visited_arguments (h : FromEntry s root start ts q) {i : Item} {e : Node} {c : Construction}
    (hi : Visited ts i) (hexp : i.expression? = some e) (hof : Construction.of? e = some c) :
    ∀ a ∈ argumentParts c.node, Visited ts (.scan a) := by
  have hw := wraps_of_of? hof
  have hin := h.in_of_visited hi
  have hplaced : ∀ {n : Node}, i.node? = some n → Placed e := fun hn =>
    (hin.placed _ hn).2.of_mem_descendants (Item.mem_descendants_of_expression? hin.fits hn hexp)
  rcases h.visited_cases hi (fun name c hc => by rw [hc] at hexp; cases hexp) with
    ⟨e', c', he', hof', hargs⟩ | hleads
  · rw [hexp] at he'
    cases he'
    rw [hof] at hof'
    cases hof'
    exact hargs
  · cases i with
    | scan m =>
      cases hexp
      exact h.visited_arguments_of_scan hw (hplaced rfl) hi
    | task m =>
      cases hexp
      refine h.visited_arguments_of_scan hw (hplaced rfl) (hleads _ ?_)
      rw [Item.leads, known?_eq_none_of_wraps hw]
      exact List.mem_singleton.2 rfl
    | value n m =>
      cases hexp
      -- The value was not placed, so the whole statement is searched and comes to the value again.
      have hparts : ∀ k ∈ n.parts, Visited ts (.scan k) := by
        intro k hk
        refine hleads _ ?_
        rw [Item.leads, known?_eq_none_of_wraps hw, Item.ofValue, hw.parallelArgument?_eq_none]
        exact List.mem_map_of_mem hk
      rcases hin.fits with rfl | ⟨_, hcomp⟩
      · exact h.visited_arguments_of_parts hw (hplaced rfl) hparts
      · refine h.visited_arguments_of_scan hw (hplaced rfl) ?_
        rcases computed?_cases hcomp with ⟨d, hd, hdk, hval⟩ | ⟨a, ha, hak, hval⟩ | hpart
        · exact h.visited_parts (hparts d hd) (by simp [hdk]) _
            (hw.mem_parts (mem_children_of_child? hval))
        · have hap : a ∈ n.parts :=
            List.mem_filter.2 ⟨mem_children_of_part? ha, by simp [isNamed, isComment, hak]⟩
          exact h.visited_parts (hparts a hap) (by simp [hak]) _
            (hw.mem_parts (mem_children_of_child? hval))
        · exact hparts _ (hw.mem_parts (mem_children_of_part? hpart))
    | statement m | block m | enter name c => cases hexp

/-- The body of a callable that is called is looked at, here or where it was called first. -/
theorem visited_ofBody (h : FromEntry s root start ts q) {name : String} {c : Callable}
    (hi : Visited ts (.enter name c)) (ho : opensUp s name = true) :
    ∀ j ∈ Item.ofBody c, Visited ts j := by
  obtain ⟨t, ht, hitem⟩ := hi
  -- Some turn expands the callable: this one or an earlier one.
  obtain ⟨u, hu, huitem, hexpands⟩ : ∃ u ∈ ts, u.job.item = .enter name c ∧
      expands s u.job.stack u.progress name = true := by
    by_cases he : expands s t.job.stack t.progress name = true
    · exact ⟨t, ht, hitem, he⟩
    · have hbefore : name ∈ t.progress.expanded := by
        obtain ⟨heffect, hoption, hhandle⟩ := opensUp_iff.1 ho
        by_contra hnot
        refine he (expands_iff.2 ⟨heffect, hoption, hnot, fun hstack => ?_⟩)
        exact (h.guarded ht name hstack).elim hhandle hnot
      rcases h.runs.exists_expansion ht hbefore with hnil | ⟨u, hu, d, hd, he⟩
      · cases hnil
      · have hc := (h.in_of_visited ⟨t, ht, hitem⟩).fits
        have hcd : s.calls.get? name = some d := (h.in_of_visited ⟨u, hu, hd⟩).fits
        rw [show s.calls.get? name = some c from hc] at hcd
        cases hcd
        exact ⟨u, hu, hd, he⟩
  intro j hj
  have hnext := h.visited_of_step hu
  have hd := u.job.does_step s u.progress
  generalize u.job.step s u.progress = st at hd hnext
  cases hd with
  | claim hc =>
    rw [huitem] at hc
    cases hc
  | enter hi _ =>
    rw [huitem] at hi
    cases hi
    exact hnext _ (List.mem_map_of_mem hj)
  | pass hi he =>
    rw [huitem] at hi
    cases hi
    exact absurd hexpands he
  | follow _ hi => exact absurd huitem (hi _ _)

/-- **Every item that can be looked at has its turn.** -/
theorem visited_of_looked (h : FromEntry s root start ts q) {i : Item} (hi : Looked s start i) :
    Visited ts i := by
  induction hi with
  | @start i hi =>
    obtain ⟨t, ht, he⟩ := h.runs.exists_turn (List.mem_map_of_mem hi)
    exact ⟨t, ht, by rw [he]⟩
  | @next i j _ hj ih =>
    cases hc : i.claim? s [] with
    | some r =>
      -- The bubble may have been placed elsewhere by then, but its arguments
      -- are searched all the same.
      rw [Item.next_of_claim hc] at hj
      obtain ⟨a, ha, rfl⟩ := List.mem_map.1 hj
      obtain ⟨_, e, _, hexp, hof⟩ := Item.exists_node?_of_claim? hc
      exact h.visited_arguments ih hexp hof a ha
    | none =>
      by_cases he : ∃ name c, i = .enter name c
      · obtain ⟨name, c, rfl⟩ := he
        rw [Item.next_enter] at hj
        split at hj
        · next ho => exact h.visited_ofBody ih ho j hj
        · cases hj
      · have hne : ∀ name c, i ≠ .enter name c := fun name c h => he ⟨name, c, h⟩
        rw [Item.next_of_claim?_eq_none hc hne] at hj
        obtain ⟨t, ht, rfl⟩ := ih
        refine h.visited_of_step ht ⟨t.job.stack, j⟩ ?_
        rw [Job.step_of_claim?_eq_none (Item.claim?_eq_none_of_nil hc) hne]
        exact List.mem_map_of_mem hj

/-- **A bubble that is seen is placed.** -/
theorem mem_placed_of_seen (h : FromEntry s root start ts q) {b : Bubble}
    (hb : b ∈ s.bubbles.values) (hseen : Seen s start b) : b.variableId ∈ placed s ts := by
  obtain ⟨i, e, c, name, hlooked, hexp, hof, hname, hcand, hcol⟩ := hseen
  obtain ⟨t, ht, rfl⟩ := h.visited_of_looked hlooked
  -- After the turn at which it is seen the bubble has been placed, by that turn or before.
  have hused : b.variableId ∈ (t.step s).after.used := by
    by_cases hu : b.variableId ∈ t.progress.used
    · rw [Turn.step, Job.used_after_step]
      exact List.mem_append.2 (.inr hu)
    · obtain ⟨id, hfind⟩ := exists_findBubble? hof hname hb (candidate_iff.2 ⟨hu, hcand⟩)
      have hclaim : t.job.item.claim? s t.progress.used = some (id, c) := by
        rw [Item.claim?, hexp, Option.bind_some, hfind]
      rw [Turn.step, Job.step_of_claim hclaim,
        eq_of_findBubble? h.toSituated hof hname hb (candidate_iff.2 ⟨hu, hcand⟩) hcol hfind]
      exact List.mem_cons_self
  have hq := h.runs.used_subset ht hused
  rw [h.runs.used_eq] at hq
  simpa using hq

end FromEntry

end

end FlowAnalysis.Workflow
