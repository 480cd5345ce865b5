import FlowAnalysis.Analysis.Invariant
import FlowAnalysis.Proofs.Bubble.Table
import FlowAnalysis.Proofs.Workflow.Agenda
import Mathlib.Data.List.Nodup

/-!
# The leaves of a workflow and its bubbles

A bubble is placed only when it has not been placed before, so no turn places a bubble that an
earlier one has placed (`Runs.nodup_used`), and the progress at the end lists exactly the bubbles
placed (`Runs.used_eq`).  The tree keeps every bubble placed, so its leaves are distinct and are the
bubbles of the workflow (`leaves_match_bubbles`).
-/

namespace FlowAnalysis

namespace Workflow

open Script

/-! ### Finding a bubble -/

theorem nearest?_spec {col : Nat} {bs : List Bubble} {b : Bubble} (h : nearest? col bs = some b) :
    b ∈ bs ∧ ∀ c ∈ bs, distance b.location.startCol col ≤ distance c.location.startCol col := by
  cases bs with
  | nil => cases h
  | cons d ds =>
    obtain rfl := Option.some.inj h
    clear h
    -- The best so far is one of the bubbles seen, and none of those is nearer.
    induction ds generalizing d with
    | nil => simp
    | cons e es ih =>
      have hbest : ∃ best, (if distance e.location.startCol col < distance d.location.startCol col
          then e else d) = best ∧ (best = e ∨ best = d) ∧
          distance best.location.startCol col ≤ distance e.location.startCol col ∧
          distance best.location.startCol col ≤ distance d.location.startCol col := by
        split
        · exact ⟨e, rfl, .inl rfl, by omega, by omega⟩
        · exact ⟨d, rfl, .inr rfl, by omega, by omega⟩
      obtain ⟨best, hb, hor, hle_e, hle_d⟩ := hbest
      rw [List.foldl_cons, hb]
      obtain ⟨hm, hle⟩ := ih best
      have hfirst := hle best List.mem_cons_self
      constructor
      · rcases List.mem_cons.1 hm with h | h
        · rw [h]
          rcases hor with rfl | rfl <;> simp
        · exact List.mem_cons_of_mem _ (List.mem_cons_of_mem _ h)
      · intro c hc
        rcases List.mem_cons.1 hc with rfl | hc
        · exact Nat.le_trans hfirst hle_d
        · rcases List.mem_cons.1 hc with rfl | hc
          · exact Nat.le_trans hfirst hle_e
          · exact hle c (List.mem_cons_of_mem _ hc)

/-- A bubble found at an expression is located there and has not been placed, and no
other such bubble is nearer. -/
theorem findBubble?_spec {s : Setting} {used : List Int} {e : Node} {id : Int} {c : Construction}
    (h : findBubble? s used e = some (id, c)) :
    ∃ name b, Construction.of? e = some c ∧ c.className? = some name ∧ b ∈ s.bubbles.values ∧
      candidate s used name e.location b = true ∧ b.variableId = id ∧
      ∀ d ∈ s.bubbles.values, candidate s used name e.location d = true →
        distance b.location.startCol e.location.startCol
          ≤ distance d.location.startCol e.location.startCol := by
  simp only [findBubble?, Option.bind_eq_bind] at h
  obtain ⟨c', hc, h⟩ := Option.bind_eq_some_iff.1 h
  obtain ⟨name, hn, h⟩ := Option.bind_eq_some_iff.1 h
  obtain ⟨b, hb, h⟩ := Option.bind_eq_some_iff.1 h
  cases h
  obtain ⟨hm, hle⟩ := nearest?_spec hb
  obtain ⟨hv, hcand⟩ := List.mem_filter.1 hm
  exact ⟨name, b, hc, hn, hv, hcand, rfl, fun d hd hdc => hle d (List.mem_filter.2 ⟨hd, hdc⟩)⟩

theorem not_mem_used_of_candidate {s : Setting} {used : List Int} {name : String} {l : Location}
    {b : Bubble} (h : candidate s used name l b = true) : b.variableId ∉ used := by
  simp only [candidate, Bool.and_eq_true, Bool.not_eq_true', List.contains_eq_mem] at h
  simpa using h.1.1.1.1

/-! ### What turns place -/

variable {s : Setting} {js : List Job} {p q : Progress} {ts : List Turn}

theorem Job.used_after_step (j : Job) :
    (j.step s p).after.used = (j.step s p).placed.toList ++ p.used := by
  have hd := j.does_step s p
  generalize j.step s p = st at hd ⊢
  cases hd <;> rfl

/-- A turn places a bubble only where its item is one. -/
theorem Job.claim?_of_placed {j : Job} {id : Int} (h : (j.step s p).placed = some id) :
    ∃ c, j.item.claim? s p.used = some (id, c) := by
  have hd := j.does_step s p
  generalize j.step s p = st at h hd
  cases hd with
  | claim hc =>
    obtain rfl := Option.some.inj h
    exact ⟨_, hc⟩
  | enter | pass | follow => cases h

/-- A turn places only a located bubble that has not been placed. -/
theorem Job.placed_step {j : Job} {id : Int} (h : (j.step s p).placed = some id) :
    id ∉ p.used ∧ ∃ b ∈ s.bubbles.values, b.variableId = id := by
  obtain ⟨c, hc⟩ := Job.claim?_of_placed h
  obtain ⟨e, _, he⟩ := Option.bind_eq_some_iff.1 hc
  obtain ⟨name, b, _, _, hb, hcand, hid, _⟩ := findBubble?_spec he
  exact ⟨hid ▸ not_mem_used_of_candidate hcand, b, hb, hid⟩

namespace Runs

/-- The progress at the end lists the bubbles placed, the last one first. -/
theorem used_eq (h : Runs s js p ts q) : q.used = (placed s ts).reverse ++ p.used := by
  induction h with
  | done p => rfl
  | @turn j rest p q ts _ ih =>
    rw [ih, Job.used_after_step, placed_cons, List.reverse_append, List.append_assoc]
    cases (j.step s p).placed <;> rfl

/-- No bubble is placed twice. -/
theorem nodup_used (h : Runs s js p ts q) (hp : p.used.Nodup) : q.used.Nodup := by
  induction h with
  | done p => exact hp
  | @turn j rest p q ts _ ih =>
    refine ih ?_
    rw [Job.used_after_step]
    cases hj : (j.step s p).placed with
    | none => exact hp
    | some id => exact List.nodup_cons.2 ⟨(Job.placed_step hj).1, hp⟩

end Runs

/-- The bubbles placed in working through an agenda, unless it takes more than so many turns. -/
def work (s : Setting) : Nat → List Job → Progress → Option (List Int)
  | _, [], _ => some []
  | 0, _ :: _, _ => none
  | k + 1, j :: rest, p =>
    (work s k ((j.step s p).jobs ++ rest) (j.step s p).after).map ((j.step s p).placed.toList ++ ·)

/-- There is one way to work through an agenda. -/
theorem Runs.placed_eq_of_work (h : Runs s js p ts q) {k : Nat} {ids : List Int}
    (hw : work s k js p = some ids) : placed s ts = ids := by
  induction h generalizing k ids with
  | done p => cases k <;> exact Option.some.inj hw
  | @turn j rest p q ts _ ih =>
    cases k with
    | zero => cases hw
    | succ k =>
      obtain ⟨later, hlater, rfl⟩ := Option.map_eq_some_iff.1 hw
      rw [placed_cons, ih hlater]

/-- Every bubble placed is a located one. -/
theorem exists_bubble_of_mem_placed {id : Int} (h : id ∈ placed s ts) :
    ∃ b ∈ s.bubbles.values, b.variableId = id := by
  obtain ⟨t, _, ht⟩ := List.mem_filterMap.1 h
  exact (Job.placed_step ht).2

/-! ### The workflow -/

/-- What the workflow of an entry point is built from. -/
def setting (root : Node) (bubbles : ById Bubble) (calls : CallTable)
    (options : Options) : Setting :=
  ⟨bubbles, calls, effectsOf calls bubbles, options, root.imports options.bubblePackage⟩

/-- The agenda of an entry point: its body. -/
def agenda (handle : Method) : List Job := jobs ["handle"] (Item.ofBranch handle.body)

/-- A workflow is built by running through the body of the entry point: its leaves are the bubbles
placed, in order, and its bubbles are those listed in the progress at the end. -/
theorem exists_runs_build (root : Node) (handle : Method) (bubbles : ById Bubble)
    (calls : CallTable) (options : Options) :
    ∃ ts q, Runs (setting root bubbles calls options) (agenda handle) {} ts q ∧
      (build root handle bubbles calls options).bubbleIds
        = placed (setting root bubbles calls options) ts ∧
      (build root handle bubbles calls options).bubbles
        = bubbles.filter fun id _ => q.used.contains id := by
  rw [build, agenda]
  cases handle.body with
  | none => exact ⟨[], {}, .done {}, rfl, rfl⟩
  | some body =>
    obtain ⟨ts, hr, hp⟩ :=
      (builds_block (setting root bubbles calls options) ["handle"] body).emits {}
    exact ⟨ts, _, hr, hp.symm, rfl⟩

section

variable (root : Node) (handle : Method) (bubbles : ById Bubble) (calls : CallTable)
  (options : Options)

/-- The leaves of a workflow are distinct, and they are the ids in the progress at the end. -/
theorem exists_used_build :
    ∃ used : List Int, (build root handle bubbles calls options).bubbleIds.reverse = used ∧
      used.Nodup ∧ (∀ id ∈ used, ∃ b ∈ bubbles.values, b.variableId = id) ∧
      (build root handle bubbles calls options).bubbles = bubbles.filter fun id _ =>
      used.contains id := by
  obtain ⟨ts, q, hr, hids, hbubbles⟩ := exists_runs_build root handle bubbles calls options
  have hused : q.used = (placed (setting root bubbles calls options) ts).reverse := by
    rw [hr.used_eq]
    exact List.append_nil _
  refine ⟨q.used, ?_, hr.nodup_used List.nodup_nil, fun id hid => ?_, hbubbles⟩
  · rw [hids, hused]
  · rw [hused, List.mem_reverse] at hid
    exact exists_bubble_of_mem_placed hid

theorem nodup_bubbleIds_build : (build root handle bubbles calls options).bubbleIds.Nodup := by
  obtain ⟨used, hused, hnodup, _⟩ := exists_used_build root handle bubbles calls options
  rw [← List.nodup_reverse, hused]
  exact hnodup

/-- The bubbles of a workflow are the located bubbles at its leaves. -/
theorem mem_entries_build {id : Int} {b : Bubble} :
    (id, b) ∈ (build root handle bubbles calls options).bubbles.entries ↔
      (id, b) ∈ bubbles.entries ∧ id ∈ (build root handle bubbles calls options).bubbleIds := by
  obtain ⟨used, hused, _, _, hbubbles⟩ := exists_used_build root handle bubbles calls options
  rw [hbubbles, ← hused]
  simp [ById.filter]

/-- Every leaf is a located bubble. -/
theorem exists_entry_of_mem_bubbleIds (keyed : Bubble.Keyed bubbles) {id : Int}
    (h : id ∈ (build root handle bubbles calls options).bubbleIds) :
    ∃ b, (id, b) ∈ bubbles.entries := by
  obtain ⟨used, hused, _, hlocated, _⟩ := exists_used_build root handle bubbles calls options
  have hid : id ∈ used := by
    rw [← hused, List.mem_reverse]
    exact h
  obtain ⟨b, hb, rfl⟩ := hlocated id hid
  exact ⟨b, keyed.mem_entries hb⟩

theorem mem_bubbleIds_iff_mem_ids (keyed : Bubble.Keyed bubbles) (id : Int) :
    id ∈ (build root handle bubbles calls options).bubbleIds ↔
      id ∈ (build root handle bubbles calls options).bubbles.ids := by
  rw [ById.mem_ids_iff]
  constructor
  · intro hid
    obtain ⟨b, hb⟩ := exists_entry_of_mem_bubbleIds root handle bubbles calls options keyed hid
    exact ⟨b, (mem_entries_build root handle bubbles calls options).2 ⟨hb, hid⟩⟩
  · rintro ⟨b, hb⟩
    exact ((mem_entries_build root handle bubbles calls options).1 hb).2

end

end Workflow

/-! ### What is checked of the leaves -/

namespace Analysis

variable {a : Analysis}

theorem repeated_eq_nil {α : Type} [BEq α] [LawfulBEq α] {as seen : List α} (h : as.Nodup)
    (hs : ∀ a ∈ as, a ∉ seen) : repeated seen as = [] := by
  induction as generalizing seen with
  | nil => rfl
  | cons a as ih =>
    obtain ⟨ha, has⟩ := List.nodup_cons.1 h
    rw [repeated, if_neg (by simpa using hs a List.mem_cons_self)]
    refine ih has fun b hb => ?_
    rintro (_ | ⟨_, hm⟩)
    · exact ha hb
    · exact hs b (List.mem_cons_of_mem _ hb) hm

theorem repeatedLeaves_eq_nil (h : a.workflow.bubbleIds.Nodup) : a.repeatedLeaves = [] := by
  rw [repeatedLeaves, repeated_eq_nil h (fun _ _ => List.not_mem_nil), List.map_nil]

theorem unreferencedBubbles_eq_nil (h : ∀ id ∈ a.workflow.bubbles.ids, id ∈ a.workflow.bubbleIds) :
    a.unreferencedBubbles = [] := by
  rw [unreferencedBubbles, List.filter_eq_nil_iff.2, List.map_nil]
  intro id hid
  simpa using h id hid

theorem unknownLeaves_eq_nil (h : ∀ id ∈ a.workflow.bubbleIds, id ∈ a.workflow.bubbles.ids)
    (h' : ∀ id ∈ a.workflow.bubbleIds, id ∈ a.bubbles.ids) : a.unknownLeaves = [] := by
  rw [unknownLeaves, List.filter_eq_nil_iff.2, List.map_nil]
  intro id hid
  rw [ById.contains_iff.2 (h id hid), ById.contains_iff.2 (h' id hid)]
  decide

end Analysis

namespace Workflow

/-- **The leaves of a workflow are its bubbles, each once.**  Whatever the callables and the options
are, when every located bubble stands under its own id no leaf of the workflow comes twice, the
leaves are exactly the ids of the workflow's bubbles, and the workflow has the located bubble under
each of them; so the analysis has no unknown leaf, no unreferenced bubble and no repeated leaf. -/
theorem leaves_match_bubbles (root : Script.Node) (handle : Script.Method) (bubbles : ById Bubble)
    (calls : Script.CallTable) (options : Options) (methods : ByName MethodSite)
    (keyed : Bubble.Keyed bubbles) :
    let w := build root handle bubbles calls options
    let a : Analysis := ⟨bubbles, w, methods⟩
    w.bubbleIds.Nodup ∧ (∀ id, id ∈ w.bubbleIds ↔ id ∈ w.bubbles.ids) ∧
      (∀ id ∈ w.bubbleIds, ∃ b, bubbles.get? id = some b ∧ w.bubbles.get? id = some b) ∧
      a.unknownLeaves = [] ∧ a.unreferencedBubbles = [] ∧ a.repeatedLeaves = [] := by
  intro w a
  have hnodup : w.bubbleIds.Nodup := nodup_bubbleIds_build root handle bubbles calls options
  have hleaf : ∀ id, id ∈ w.bubbleIds ↔ id ∈ w.bubbles.ids :=
    mem_bubbleIds_iff_mem_ids root handle bubbles calls options keyed
  have hlocated : ∀ id ∈ w.bubbleIds, ∃ b, (id, b) ∈ bubbles.entries := fun id =>
    exists_entry_of_mem_bubbleIds root handle bubbles calls options keyed
  refine ⟨hnodup, hleaf, fun id hid => ?_, ?_, ?_, ?_⟩
  · obtain ⟨b, hb⟩ := hlocated id hid
    have hw := (mem_entries_build root handle bubbles calls options).2 ⟨hb, hid⟩
    exact ⟨b, ById.get?_eq_some_iff.2 hb, ById.get?_eq_some_iff.2 hw⟩
  · refine Analysis.unknownLeaves_eq_nil (fun id => (hleaf id).1) fun id hid => ?_
    exact ById.mem_ids_iff.2 (hlocated id hid)
  · exact Analysis.unreferencedBubbles_eq_nil fun id => (hleaf id).2
  · exact Analysis.repeatedLeaves_eq_nil hnodup

/-- The statement `new A` at a column. -/
def constructing (column : Nat) : Script.Node :=
  .branch .expressionStatement none
    [.branch .newExpression none
      [.token .anonymous none ⟨column, 0, column⟩ "" "new",
        .token .identifier (some .constructor) ⟨column + 4, 0, column + 4⟩ " " "A"]]

/-- The block `{new A;new A}`. -/
def twice : Script.Node :=
  .branch .statementBlock (some .body)
    [.token .anonymous none ⟨0, 0, 0⟩ "" "\x7b", constructing 1,
      .token .anonymous none ⟨6, 0, 6⟩ "" ";", constructing 7,
      .token .anonymous none ⟨12, 0, 12⟩ "" "\x7d"]

/-- An entry point with that block. -/
def twiceEntry : Script.Method := ⟨"handle", twice, twice, some twice, false, none⟩

/-- The first of the two constructions as the only bubble. -/
def firstOnly : ById Bubble :=
  ById.empty.insert (-1)
    { variableId := -1, variableName := "_anonymous_A_1", bubbleName := "a", className := "A",
      parameters := [], hasAwait := false, hasActionCall := false, nodeType := .service,
      location := ⟨1, 1, 1, 6⟩ }

/-- Both constructions are near the bubble, and it is one leaf. -/
theorem leaves_twice :
    Bubble.Keyed firstOnly ∧
      (build twice twiceEntry firstOnly ⟨.empty⟩ {}).bubbleIds = [-1] ∧
      (build twice twiceEntry firstOnly ⟨.empty⟩ {}).bubbleIds.Nodup ∧
      ∃ b, firstOnly.get? (-1) = some b ∧
        (build twice twiceEntry firstOnly ⟨.empty⟩ {}).bubbles.get? (-1) = some b := by
  have hkeyed : Bubble.Keyed firstOnly := by
    intro e he
    obtain rfl := List.mem_singleton.1 he
    rfl
  obtain ⟨ts, q, hr, hids, _⟩ := exists_runs_build twice twiceEntry firstOnly ⟨.empty⟩ {}
  have hleaves : (build twice twiceEntry firstOnly ⟨.empty⟩ {}).bubbleIds = [-1] := by
    rw [hids]
    exact hr.placed_eq_of_work (k := 20) (by decide +kernel)
  obtain ⟨hnodup, _, hsame, _⟩ :=
    leaves_match_bubbles twice twiceEntry firstOnly ⟨.empty⟩ {} .empty hkeyed
  refine ⟨hkeyed, hleaves, hnodup, hsame (-1) ?_⟩
  rw [hleaves]
  exact List.mem_singleton.2 rfl

end Workflow

end FlowAnalysis
