import FlowAnalysis.Proofs.Workflow.Reach

/-!
# Nothing is looked at twice

The nodes on the agenda are apart from each other and from the bodies that have not been opened
(`scattered_step`).  So what a turn places starts nowhere in what is still ahead, and a bubble that
is ahead has not been placed.  When no bubble is taken for one that stands elsewhere (`Exact`), the
memory of the builder therefore makes no difference: every item that has its turn can be looked at,
and exactly the bubbles that are seen are placed (`FromEntry.mem_placed_iff`).
-/

namespace FlowAnalysis.Workflow

open Script Node

/-! ### What is ahead -/

/-- The nodes at which the jobs of an agenda stand. -/
def ahead (js : List Job) : List Node := Item.nodes (js.map Job.item)

theorem ahead_append (js ks : List Job) : ahead (js ++ ks) = ahead js ++ ahead ks := by
  rw [ahead, List.map_append, Item.nodes_append]
  rfl

theorem ahead_cons (j : Job) (js : List Job) :
    ahead (j :: js) = j.item.node?.toList ++ ahead js := by
  rw [ahead, List.map_cons, Item.nodes, List.filterMap_cons]
  cases j.item.node? <;> rfl

theorem mem_ahead {js : List Job} {n : Node} : n ∈ ahead js ↔ ∃ j ∈ js, j.item.node? = some n := by
  simp [ahead, Item.nodes]

/-- The body of a callable that has not been expanded. -/
def Unopened (s : Setting) (p : Progress) (b : Node) : Prop :=
  ∃ name c, name ≠ "handle" ∧ name ∉ p.expanded ∧ s.calls.get? name = some c ∧ c.body = some b

/-- What is ahead is apart from each other and from the bodies that have not been opened. -/
structure Scattered (s : Setting) (js : List Job) (p : Progress) : Prop where
  apart : (ahead js).Pairwise Apart
  outside : ∀ n ∈ ahead js, ∀ b, Unopened s p b → Apart n b

section

variable {s : Setting} {root : Node} {j : Job} {rest : List Job} {p : Progress}

theorem unopened_of_step {b : Node} (h : Unopened s (j.step s p).after b) : Unopened s p b := by
  obtain ⟨name, c, hne, hnot, hc⟩ := h
  refine ⟨name, c, hne, fun hin => hnot ?_, hc⟩
  have hd := j.does_step s p
  generalize j.step s p = st at hd ⊢
  cases hd with
  | enter => exact List.mem_cons_of_mem _ hin
  | claim | pass | follow => exact hin

/-- What a turn leads to lies in one node: that of the job, or the body that is opened.  It is apart
from all else that is ahead. -/
theorem exists_origin (hh : Housed root s.calls) (hg : Guarded (j :: rest) p)
    (hin : j.item.In root s.calls) (hs : Scattered s (j :: rest) p)
    (hne : ahead (j.step s p).jobs ≠ []) :
    ∃ n, (n ∈ j.item.node? ∨ Unopened s p n) ∧ Placed n ∧ Spread n (ahead (j.step s p).jobs) ∧
      (∀ r ∈ ahead rest, Apart n r) ∧ ∀ b, Unopened s (j.step s p).after b → Apart n b := by
  cases hn : j.item.node? with
  | some n =>
    have hp := (hin.placed n hn).2
    have hhead : ahead (j :: rest) = n :: ahead rest := by rw [ahead_cons, hn]; rfl
    refine ⟨n, .inl rfl, hp, Job.spread_step hin.fits hn hp, fun r hr => ?_, fun b hb => ?_⟩
    · exact (List.pairwise_cons.1 (hhead ▸ hs.apart)).1 r hr
    · exact hs.outside n (hhead ▸ List.mem_cons_self) b (unopened_of_step hb)
  | none =>
    have hd := j.does_step s p
    generalize j.step s p = st at hd hne
    cases hd with
    | claim hc =>
      obtain ⟨n, _, hn', _⟩ := Item.exists_node?_of_claim? hc
      rw [hn] at hn'
      cases hn'
    | follow _ hi =>
      cases hitem : j.item with
      | enter name c => exact absurd hitem (hi name c)
      | _ =>
        rw [hitem] at hn
        cases hn
    | pass => exact absurd rfl hne
    | @enter name c hi he =>
      -- The body that is opened was unopened before, and apart from all other bodies.
      cases hb : c.body with
      | none =>
        rw [ahead, Job.map_item_jobs, Item.ofBody, hb] at hne
        exact absurd rfl hne
      | some b =>
        have hget : s.calls.get? name = some c := by
          have hfits := hin.fits
          rw [hi] at hfits
          exact hfits
        have hp := (hh.placed hget hb).2
        obtain ⟨_, _, hnew, _⟩ := expands_iff.1 he
        have hhandle := hg.ne_of_expands List.mem_cons_self he
        have hun : Unopened s p b := ⟨name, c, hhandle, hnew, hget, hb⟩
        refine ⟨b, .inr hun, hp, ?_, fun r hr => ?_, ?_⟩
        · rw [ahead, Job.map_item_jobs]
          exact Item.spread_ofBody hb hp
        · refine (hs.outside r ?_ b hun).symm
          rw [ahead_cons]
          exact List.mem_append.2 (.inr hr)
        · rintro b' ⟨name', c', _, hnot, hget', hb'⟩
          refine hh.apart ?_ hget hget' hb hb'
          rintro rfl
          exact hnot List.mem_cons_self

theorem scattered_step (hh : Housed root s.calls) (hg : Guarded (j :: rest) p)
    (hin : j.item.In root s.calls) (hs : Scattered s (j :: rest) p) :
    Scattered s ((j.step s p).jobs ++ rest) (j.step s p).after := by
  have hrest : (ahead rest).Pairwise Apart := by
    have hall := hs.apart
    rw [ahead_cons] at hall
    exact (List.pairwise_append.1 hall).2.1
  have hold : ∀ r ∈ ahead rest, ∀ b, Unopened s (j.step s p).after b → Apart r b := by
    intro r hr b hb
    refine hs.outside r ?_ b (unopened_of_step hb)
    rw [ahead_cons]
    exact List.mem_append.2 (.inr hr)
  -- New nodes replace the node or the body in which they lie, so they keep
  -- its distance to the rest.
  by_cases hne : ahead (j.step s p).jobs = []
  · refine ⟨?_, ?_⟩ <;> rw [ahead_append, hne, List.nil_append]
    · exact hrest
    · exact hold
  · obtain ⟨n, _, hp, hspread, hapart, hun⟩ := exists_origin hh hg hin hs hne
    have hw : ∀ m ∈ ahead (j.step s p).jobs, Within m n := fun m hm =>
      hp.within_of_mem_descendants (hspread.below m hm)
    refine ⟨?_, ?_⟩ <;> rw [ahead_append]
    · refine List.pairwise_append.2 ⟨hspread.apart, hrest, fun m hm r hr => ?_⟩
      exact (hapart r hr).mono (hw m hm) (.refl r)
    · intro m hm b hb
      rcases List.mem_append.1 hm with hm | hm
      · exact (hun b hb).mono (hw m hm) (.refl b)
      · exact hold m hm b hb

end

/-! ### What has been placed is behind -/

/-- No part of a node starts where a bubble starts. -/
def Misses (b : Bubble) (n : Node) : Prop :=
  ∀ m ∈ n.descendants, m.location.startKey ≠ b.location.startKey

theorem Misses.mono {b : Bubble} {n m : Node} (h : Misses b n) (hm : m ∈ n.descendants) :
    Misses b m :=
  fun k hk => h k (mem_descendants_trans hm hk)

/-- A bubble in one node starts nowhere in a node apart from it. -/
theorem misses_of_apart {b : Bubble} {n m e : Node} (hn : Placed n) (hm : Placed m) (h : Apart n m)
    (he : e ∈ n.descendants) (hb : b.location.startKey = e.location.startKey) : Misses b m := by
  intro k hk heq
  rw [hb, startKey_eq_iff] at heq
  have hke : Apart e k :=
    h.mono (hn.within_of_mem_descendants he) (hm.within_of_mem_descendants hk)
  exact (hn.of_mem_descendants he).start_ne_of_apart (hm.of_mem_descendants hk) hke heq.symm

/-- A bubble starts before its arguments. -/
theorem misses_argument {b : Bubble} {x e a : Node} (hw : Wraps x e) (he : Placed e)
    (ha : a ∈ argumentParts x) (hb : b.location.startKey = e.location.startKey) : Misses b a := by
  have hx := he.of_mem_descendants hw.mem_descendants
  obtain ⟨g, hg, hag⟩ := mem_argumentParts.1 ha
  have hgm := mem_children_of_child? hg
  have hgp := hx.of_mem_children hgm
  have ham := mem_children_of_mem_parts hag
  have hlt : x.start.key < g.start.key := by
    rcases hx.head_or_start_lt hgm with hhead | hlt
    · -- The keyword comes first, and it has no parts.
      have hshape := hx.shaped (List.ne_nil_of_mem hgm)
      rw [hw.kind_new] at hshape
      rw [hshape.1 g hhead] at ham
      cases ham
    · exact hlt
  intro m hm heq
  rw [hb, startKey_eq_iff] at heq
  have hge : g.start.key ≤ m.start.key :=
    (hgp.within_of_mem_descendants
      (mem_descendants_trans (mem_descendants_of_mem_children ham) hm)).start
  -- The expression starts no later than the `new` in it, and that comes before all arguments.
  have hex : e.start.key ≤ x.start.key := (he.within_of_mem_descendants hw.mem_descendants).start
  exact (hex.trans_lt (hlt.trans_le hge)).ne' heq

/-! ### The memory makes no difference -/

/-- No construction that can be looked at is taken for a bubble that starts elsewhere. -/
def Exact (s : Setting) (start : List Item) : Prop :=
  ∀ {i : Item} {e : Node} {id : Int} {c : Construction}, Looked s start i →
    i.expression? = some e → findBubble? s [] e = some (id, c) →
      ∃ b, s.bubbles.get? id = some b ∧ b.location.startCol = e.location.startCol

/-- Whether an item is no bubble or one that starts there. -/
def Item.inPlace (s : Setting) (i : Item) : Bool :=
  match i.expression? with
  | none => true
  | some e =>
    match findBubble? s [] e with
    | none => true
    | some (id, _) => (s.bubbles.get? id).any fun b => b.location.startCol == e.location.startCol

theorem exact_of_search {s : Setting} {start l : List Item} {k : Nat}
    (h : Item.search s k start = some l) (hl : l.all (Item.inPlace s) = true) : Exact s start := by
  intro i e id c hi he hfind
  have hplace := List.all_eq_true.1 hl i ((mem_search_iff h).2 hi)
  rw [Item.inPlace, he] at hplace
  dsimp only at hplace
  rw [hfind] at hplace
  obtain ⟨b, hb, hcol⟩ := (Option.any_eq_true _ _).1 hplace
  exact ⟨b, hb, by simpa using hcol⟩

/-- What has been placed starts nowhere in what is ahead. -/
def Behind (s : Setting) (js : List Job) (p : Progress) : Prop :=
  ∀ b ∈ s.bubbles.values, b.variableId ∈ p.used →
    ∀ n, n ∈ ahead js ∨ Unopened s p n → Misses b n

section

variable {s : Setting} {root : Node} {start : List Item} {ts : List Turn} {q p : Progress}
  {j : Job} {rest : List Job}

/-- The bubble that a construction is, when it is in the place of one. -/
theorem exists_exact (hs : Situated s root) (hexact : Exact s start) {i : Item} {e : Node}
    {id : Int} {c : Construction} (hi : Looked s start i) (he : i.expression? = some e)
    (hfind : findBubble? s [] e = some (id, c)) :
    ∃ b ∈ s.bubbles.values, ∃ name, Construction.of? e = some c ∧ c.className? = some name ∧
      candidate s [] name e.location b = true ∧ b.location.startCol = e.location.startCol := by
  obtain ⟨name, b, hof, hname, hb, hcand, hid, _⟩ := findBubble?_spec hfind
  obtain ⟨d, hd, hcol⟩ := hexact hi he hfind
  rw [← hid, hs.keyed.get? hb] at hd
  cases hd
  exact ⟨b, hb, name, hof, hname, hcand, hcol⟩

/-- What is ahead stands in the script, apart from each other, and no bubble that
starts there has been placed. -/
structure Clear (s : Setting) (root : Node) (js : List Job) (p : Progress) : Prop where
  inside : ∀ j ∈ js, j.item.In root s.calls
  guarded : Guarded js p
  scattered : Scattered s js p
  behind : Behind s js p

namespace Clear

/-- What was behind before a turn is behind after it. -/
theorem misses_of_used (hs : Situated s root) (h : Clear s root (j :: rest) p) {b : Bubble}
    (hb : b ∈ s.bubbles.values) (hu : b.variableId ∈ p.used) {n : Node}
    (hn : n ∈ ahead ((j.step s p).jobs ++ rest) ∨ Unopened s (j.step s p).after n) :
    Misses b n := by
  have hold := h.behind b hb hu
  rcases hn with hn | hn
  · rw [ahead_append, List.mem_append] at hn
    rcases hn with hn | hn
    · obtain ⟨m, hm, _, hspread, _⟩ := exists_origin hs.housed h.guarded
        (h.inside j List.mem_cons_self) h.scattered (List.ne_nil_of_mem hn)
      refine (hold m (hm.imp_left fun hm => ?_)).mono (hspread.below n hn)
      exact mem_ahead.2 ⟨j, List.mem_cons_self, hm⟩
    · refine hold n (.inl ?_)
      rw [ahead_cons]
      exact List.mem_append.2 (.inr hn)
  · exact hold n (.inr (unopened_of_step hn))

/-- A bubble that starts where a turn places it is behind after the turn. -/
theorem misses_of_claim (hs : Situated s root) (h : Clear s root (j :: rest) p) {b : Bubble}
    {e n : Node} {c : Construction} (hn : j.item.node? = some n) (he : e ∈ n.descendants)
    (hof : Construction.of? e = some c) (hkey : b.location.startKey = e.location.startKey)
    {id : Int} (hc : j.item.claim? s p.used = some (id, c)) {m : Node}
    (hm : m ∈ ahead ((j.step s p).jobs ++ rest) ∨ Unopened s (j.step s p).after m) :
    Misses b m := by
  have hp : Placed n := ((h.inside j List.mem_cons_self).placed n hn).2
  have hhead : ahead (j :: rest) = n :: ahead rest := by rw [ahead_cons, hn]; rfl
  rcases hm with hm | hm
  · rw [ahead_append, List.mem_append] at hm
    rcases hm with hm | hm
    · rw [Job.step_of_claim hc, ahead, Job.map_item_jobs, Item.nodes_map_scan] at hm
      exact misses_argument (wraps_of_of? hof) (hp.of_mem_descendants he) hm hkey
    · obtain ⟨k, hk, hkm⟩ := mem_ahead.1 hm
      have hapart := (List.pairwise_cons.1 (hhead ▸ h.scattered.apart)).1 m hm
      exact misses_of_apart hp ((h.inside k (List.mem_cons_of_mem _ hk)).placed m hkm).2
        hapart he hkey
  · have hun := unopened_of_step hm
    obtain ⟨name, d, _, _, hget, hbody⟩ := hun
    exact misses_of_apart hp (hs.housed.placed hget hbody).2
      (h.scattered.outside n (hhead ▸ List.mem_cons_self) m (unopened_of_step hm)) he hkey

/-- A bubble that starts at the expression of the next job has not been placed. -/
theorem not_mem_used (h : Clear s root (j :: rest) p) {e : Node} (he : j.item.expression? = some e)
    {b : Bubble} (hb : b ∈ s.bubbles.values) (hkey : b.location.startKey = e.location.startKey) :
    b.variableId ∉ p.used := by
  intro hu
  obtain ⟨n, hn, hen⟩ := Item.exists_node?_of_expression? (h.inside j List.mem_cons_self).fits he
  have hahead : n ∈ ahead (j :: rest) := mem_ahead.2 ⟨j, List.mem_cons_self, hn⟩
  exact h.behind b hb hu n (.inl hahead) e hen hkey.symm

/-- What one turn keeps, when the bubble that it places starts there. -/
theorem step (hs : Situated s root) (h : Clear s root (j :: rest) p)
    (hplaced : ∀ e id c, j.item.expression? = some e → findBubble? s p.used e = some (id, c) →
      ∀ b ∈ s.bubbles.values, b.variableId = id → b.location.startKey = e.location.startKey) :
    Clear s root ((j.step s p).jobs ++ rest) (j.step s p).after where
  inside := by
    intro k hk
    rcases List.mem_append.1 hk with hk | hk
    · exact Job.in_step hs.housed (h.inside j List.mem_cons_self) hk
    · exact h.inside k (List.mem_cons_of_mem _ hk)
  guarded := guarded_step h.guarded
  scattered := scattered_step hs.housed h.guarded (h.inside j List.mem_cons_self) h.scattered
  behind := by
    intro b hb hu n hn
    -- The bubble was placed by this turn or before it.
    rw [Job.used_after_step, List.mem_append] at hu
    rcases hu with hnow | hu
    · obtain ⟨c, hc⟩ := Job.claim?_of_placed (Option.mem_toList.1 hnow)
      obtain ⟨e, he, hfind⟩ := Option.bind_eq_some_iff.1 hc
      obtain ⟨m, hm, hem⟩ :=
        Item.exists_node?_of_expression? (h.inside j List.mem_cons_self).fits he
      have hkey := hplaced e _ c he hfind b hb rfl
      exact h.misses_of_claim hs hm hem (of?_of_findBubble? hfind) hkey hc hn
    · exact h.misses_of_used hs hb hu hn

end Clear

/-- A construction ahead is found to be a bubble exactly when it is one at the start. -/
theorem claim?_cases (hs : Situated s root) (hexact : Exact s start)
    (h : Clear s root (j :: rest) p) (hi : Looked s start j.item) :
    (j.item.claim? s [] = none ∧ j.item.claim? s p.used = none) ∨
      ∃ e c b, j.item.expression? = some e ∧ b ∈ s.bubbles.values ∧
        b.location.startKey = e.location.startKey ∧ Seen s start b ∧
        j.item.claim? s p.used = some (b.variableId, c) ∧ ∃ id,
        j.item.claim? s [] = some (id, c) := by
  cases hc : j.item.claim? s [] with
  | none => exact .inl ⟨rfl, Item.claim?_eq_none_of_nil hc⟩
  | some r =>
    obtain ⟨id, c⟩ := r
    obtain ⟨e, he, hfind⟩ := Option.bind_eq_some_iff.1 hc
    obtain ⟨b, hb, name, hof, hname, hcand, hcol⟩ := exists_exact hs hexact hi he hfind
    have hkey : b.location.startKey = e.location.startKey :=
      Location.startKey_eq_iff.2 ⟨line_of_candidate hcand, hcol⟩
    -- The bubble starts in what is ahead, so it has not been placed.
    have hcand' := candidate_iff.2 ⟨h.not_mem_used he hb hkey, hcand⟩
    obtain ⟨id', hfind'⟩ := exists_findBubble? hof hname hb hcand'
    rw [← eq_of_findBubble? hs hof hname hb hcand' hcol hfind'] at hfind'
    refine .inr ⟨e, c, b, he, hb, hkey, ?_, ?_, id, rfl⟩
    · exact ⟨j.item, e, c, name, hi, he, hof, hname, hcand, hcol⟩
    · rw [Item.claim?, he]
      exact hfind'

/-- A run starts clear at an entry point that is apart from the bodies of all callables. -/
theorem FromEntry.clear (h : FromEntry s root start ts q)
    (happart : Scattered s (jobs ["handle"] start) {}) :
    Clear s root (jobs ["handle"] start) {} where
  inside := fun j hj => h.start j.item (Job.mem_of_mem_jobs hj).2
  guarded := guarded_start start
  scattered := happart
  behind := fun _ _ hu => absurd hu List.not_mem_nil

/-- What is ahead in a run from the entry point can be looked at, and has not been placed. -/
structure Fresh (s : Setting) (root : Node) (start : List Item) (js : List Job)
  (p : Progress) : Prop
    extends Clear s root js p where
  looked : ∀ j ∈ js, Looked s start j.item

namespace Fresh

/-- What a turn leads to can be looked at. -/
theorem looked_step (hs : Situated s root) (hexact : Exact s start)
    (h : Fresh s root start (j :: rest) p) {k : Job} (hk : k ∈ (j.step s p).jobs) :
    Looked s start k.item := by
  have hi := h.looked j List.mem_cons_self
  have hcases := claim?_cases hs hexact h.toClear hi
  have hd := j.does_step s p
  generalize j.step s p = st at hd hk
  cases hd with
  | claim hc =>
    rcases hcases with ⟨_, hnone⟩ | ⟨_, c, b, _, _, _, _, hc', id, hstatic⟩
    · rw [hnone] at hc
      cases hc
    · rw [hc'] at hc
      cases hc
      refine hi.next ?_
      rw [Item.next_of_claim hstatic]
      exact (Job.mem_of_mem_jobs hk).2
  | @enter name c hitem he =>
    have hopens : opensUp s name = true := by
      obtain ⟨heffect, hoption, _⟩ := expands_iff.1 he
      have hhandle := h.guarded.ne_of_expands List.mem_cons_self he
      exact opensUp_iff.2 ⟨heffect, hoption, hhandle⟩
    refine hi.next ?_
    rw [hitem, Item.next_enter, if_pos hopens]
    exact (Job.mem_of_mem_jobs hk).2
  | pass => cases hk
  | follow hc hitem =>
    rcases hcases with ⟨hstatic, _⟩ | ⟨_, c, b, _, _, _, _, hc', _⟩
    · refine hi.next ?_
      rw [Item.next_of_claim?_eq_none hstatic hitem]
      exact (Job.mem_of_mem_jobs hk).2
    · rw [hc'] at hc
      cases hc

/-- What one turn keeps. -/
theorem next (hs : Situated s root) (hexact : Exact s start)
    (h : Fresh s root start (j :: rest) p) :
    Fresh s root start ((j.step s p).jobs ++ rest) (j.step s p).after where
  toClear := by
    refine h.step hs fun e id c he hfind b hb hid => ?_
    have hc : j.item.claim? s p.used = some (id, c) := by
      rw [Item.claim?, he]
      exact hfind
    -- The bubble placed is the one that starts where the construction is.
    rcases claim?_cases hs hexact h.toClear (h.looked j List.mem_cons_self) with
      ⟨_, hnone⟩ | ⟨e', _, d, he', hd, hkey, _, hc', _⟩
    · rw [hnone] at hc
      cases hc
    · rw [hc'] at hc
      have hsame : d = b :=
        hs.keyed.eq_of_variableId hd hb ((Prod.mk.inj (Option.some.inj hc)).1.trans hid.symm)
      have hexpr : e' = e := Option.some.inj (he'.symm.trans he)
      rw [← hsame, ← hexpr]
      exact hkey
  looked := by
    intro k hk
    rcases List.mem_append.1 hk with hk | hk
    · exact h.looked_step hs hexact hk
    · exact h.looked k (List.mem_cons_of_mem _ hk)

end Fresh

namespace FromEntry

/-- Every bubble placed is seen, when the entry point is apart from the bodies of all callables. -/
theorem exists_seen_of_mem_placed (h : FromEntry s root start ts q) (hexact : Exact s start)
    (happart : Scattered s (jobs ["handle"] start) {}) {id : Int} (hid : id ∈ placed s ts) :
    ∃ b ∈ s.bubbles.values, b.variableId = id ∧ Seen s start b := by
  have hstart : Fresh s root start (jobs ["handle"] start) {} :=
    ⟨h.clear happart, fun j hj => .start (Job.mem_of_mem_jobs hj).2⟩
  obtain ⟨t, ht, hplaced⟩ := List.mem_filterMap.1 hid
  obtain ⟨rest, hfresh⟩ :=
    h.runs.invariant (fun hf => Fresh.next h.toSituated hexact hf) hstart t ht
  have hi := hfresh.looked t.job List.mem_cons_self
  obtain ⟨c, hc⟩ := Job.claim?_of_placed hplaced
  rcases claim?_cases h.toSituated hexact hfresh.toClear hi with
    ⟨_, hnone⟩ | ⟨_, _, b, _, hb, _, hseen, hc', _⟩
  · rw [hnone] at hc
    cases hc
  · rw [hc'] at hc
    exact ⟨b, hb, (Prod.mk.inj (Option.some.inj hc)).1, hseen⟩

/-- **Exactly the bubbles that are seen are placed.** -/
theorem mem_placed_iff (h : FromEntry s root start ts q) (hexact : Exact s start)
    (happart : Scattered s (jobs ["handle"] start) {}) {b : Bubble} (hb : b ∈ s.bubbles.values) :
    b.variableId ∈ placed s ts ↔ Seen s start b := by
  constructor
  · intro hid
    obtain ⟨d, hd, he, hseen⟩ := h.exists_seen_of_mem_placed hexact happart hid
    exact h.keyed.eq_of_variableId hd hb he ▸ hseen
  · exact h.mem_placed_of_seen hb

end FromEntry

end

end FlowAnalysis.Workflow
