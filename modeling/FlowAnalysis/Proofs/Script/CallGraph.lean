import FlowAnalysis.Proofs.Graph.Closure
import FlowAnalysis.Proofs.Script.Callables

/-!
# What a callable leads to

A callable calls another when a call in its body stands for it (`CallTable.Calls`); these are the
steps of the graph of a table (`CallTable.Keyed.leads_graph_iff`).  A visit from a name meets the
names that can be reached in some steps, and the name itself is added when one of them leads back to
it, so what is found is what one or more steps lead to (`Graph.mem_reachable_iff`).
-/

namespace FlowAnalysis

open Relation

namespace Graph

variable {g : Graph} {start n : String}

/-- The names visited other than the start. -/
theorem mem_others_iff : n ∈ (visit g [start] []).filter (fun n => n != start) ↔
    n ≠ start ∧ ReflTransGen g.Leads start n := by
  rw [List.mem_filter, mem_visit_iff, bne_iff_ne]
  exact and_comm

/-- The start is led back to when it lies on a cycle. -/
theorem any_successors_iff :
    ((start :: (visit g [start] []).filter fun n => n != start).any
      fun n => (g.successors n).contains start) = true ↔ TransGen g.Leads start start := by
  -- The last step of a cycle leaves a name that was visited.
  rw [List.any_eq_true, TransGen.tail'_iff]
  refine exists_congr fun n => ?_
  have hn : n ∈ start :: (visit g [start] []).filter (fun n => n != start) ↔
      ReflTransGen g.Leads start n := by
    rw [List.mem_cons, mem_others_iff]
    constructor
    · rintro (rfl | ⟨-, hreach⟩)
      · exact .refl
      · exact hreach
    · intro hreach
      by_cases hn : n = start
      · exact .inl hn
      · exact .inr ⟨hn, hreach⟩
  rw [hn, List.contains_iff_mem]
  rfl

/-- **A name is reached exactly when one or more steps lead to it**, the start
itself when it lies on a cycle. -/
theorem mem_reachable_iff : n ∈ g.reachable start ↔ TransGen g.Leads start n := by
  -- The start is left out at first, so it is there only when it is added at the end.
  have hothers : n ∈ (visit g [start] []).filter (fun n => n != start) ↔
      n ≠ start ∧ TransGen g.Leads start n := by
    rw [mem_others_iff]
    refine and_congr_right fun hn => ?_
    rw [reflTransGen_iff_eq_or_transGen]
    exact or_iff_right hn
  rw [reachable]
  split
  · next hcycle =>
    rw [List.mem_append, List.mem_singleton, hothers]
    by_cases hn : n = start
    · subst hn
      simpa using any_successors_iff.1 hcycle
    · simp [hn]
  · next hnone =>
    rw [hothers]
    refine and_iff_right_of_imp fun hreach hn => hnone ?_
    rw [any_successors_iff]
    exact hn ▸ hreach

theorem nodup_reachable (g : Graph) (start : String) : (g.reachable start).Nodup := by
  have hothers := (nodup_visit g start).filter (fun n => n != start)
  rw [reachable]
  split
  · refine List.nodup_append.2 ⟨hothers, List.pairwise_singleton _ start, ?_⟩
    rintro n hn m hm rfl
    exact (mem_others_iff.1 hn).1 (List.mem_singleton.1 hm)
  · exact hothers

end Graph

namespace Script

theorem Callable.mem_calls_iff {c : Callable} {x : Node × String × Bool} :
    x ∈ c.calls ↔ ∃ body, c.body = some body ∧ x.1 ∈ body.descendants ∧ x.1.kind = .callExpression ∧
      x.1.callTarget? = some x.2 := by
  obtain ⟨call, target⟩ := x
  rw [calls]
  cases c.body with
  | none => simp
  | some body =>
    simp only [List.mem_filterMap, List.mem_filter, beq_iff_eq, Option.map_eq_some_iff,
      Prod.mk.injEq, Option.some.injEq, exists_eq_left']
    constructor
    · rintro ⟨n, ⟨hn, hk⟩, target', htarget, rfl, rfl⟩
      exact ⟨hn, hk, htarget⟩
    · rintro ⟨hn, hk, htarget⟩
      exact ⟨call, ⟨hn, hk⟩, target, htarget, rfl, rfl⟩

namespace CallTable

/-- A call in the body of the first callable has the name of the second, and goes through `this`
exactly when the second is a method. -/
def Calls (t : CallTable) (m n : String) : Prop :=
  ∃ c body call isThis callee, t.get? m = some c ∧ c.body = some body ∧ call ∈ body.descendants ∧
    call.kind = .callExpression ∧ call.callTarget? = some (n, isThis) ∧ t.get? n = some callee ∧
    callee.isMethod = isThis

/-- The callables of a table stand under their own names. -/
def Keyed (t : CallTable) : Prop := ∀ n c, t.get? n = some c → c.name = n

theorem keyed_build (root : Node) (flow : Option FlowClass) : (build root flow).Keyed :=
  fun _ _ h => (mem_declaredCallables_of_get? h).2

theorem lookup_graph (t : CallTable) (m : String) :
    t.graph.lookup m = (t.get? m).map fun c => Graph.fresh [] (t.callees c) := by
  rw [graph, get?, ByName.get?]
  induction t.callables.entries with
  | nil => rfl
  | cons e es ih =>
    rw [List.map_cons, List.lookup_cons, List.lookup_cons, ih]
    split <;> rfl

section

variable {t : CallTable}

theorem Keyed.target?_name_iff (h : t.Keyed) {name n : String} {isThis : Bool} :
    (t.target? name isThis).map (·.name) = some n ↔
      name = n ∧ ∃ callee, t.get? n = some callee ∧ callee.isMethod = isThis := by
  rw [target?, Option.map_eq_some_iff]
  constructor
  · rintro ⟨callee, hcallee, rfl⟩
    obtain ⟨hget, hthis⟩ := Option.filter_eq_some_iff.1 hcallee
    have hname := h name callee hget
    exact ⟨hname.symm, callee, by rw [hname]; exact hget, eq_of_beq hthis⟩
  · rintro ⟨rfl, callee, hget, hthis⟩
    exact ⟨callee, Option.filter_eq_some_iff.2 ⟨hget, beq_iff_eq.2 hthis⟩, h name callee hget⟩

/-- The steps of the graph of a table are its calls. -/
theorem Keyed.leads_graph_iff (h : t.Keyed) {m n : String} : t.graph.Leads m n ↔ t.Calls m n := by
  have hleads : t.graph.Leads m n ↔ ∃ c, t.get? m = some c ∧ n ∈ t.callees c := by
    rw [Graph.Leads, Graph.successors, lookup_graph]
    cases t.get? m <;> simp [Graph.mem_fresh]
  rw [hleads]
  refine exists_congr fun c => ?_
  constructor
  · rintro ⟨hc, hn⟩
    obtain ⟨⟨call, name, isThis⟩, hcall, hname⟩ := List.mem_filterMap.1 hn
    obtain ⟨body, hbody, hmem, hkind, htarget⟩ := Callable.mem_calls_iff.1 hcall
    obtain ⟨rfl, callee, hcallee, hthis⟩ := h.target?_name_iff.1 hname
    exact ⟨body, call, isThis, callee, hc, hbody, hmem, hkind, htarget, hcallee, hthis⟩
  · rintro ⟨body, call, isThis, callee, hc, hbody, hmem, hkind, htarget, hcallee, hthis⟩
    refine ⟨hc, List.mem_filterMap.2 ⟨(call, n, isThis), ?_, ?_⟩⟩
    · exact Callable.mem_calls_iff.2 ⟨body, hbody, hmem, hkind, htarget⟩
    · exact h.target?_name_iff.2 ⟨rfl, callee, hcallee, hthis⟩

theorem Keyed.mem_reachable_iff (h : t.Keyed) {m n : String} :
    n ∈ t.reachable m ↔ TransGen t.Calls m n := by
  have hcalls : t.graph.Leads = t.Calls := by
    funext m n
    exact propext h.leads_graph_iff
  rw [reachable, Graph.mem_reachable_iff, hcalls]

end

/-- **What a callable leads to is exact.**  In the table of every script and flow class, the names
that a name leads to are those that one or more calls lead to, each once; the name itself is among
them when it lies on a cycle of calls.  So it leads to a bubble exactly when the body of its
callable, or of one that one or more calls lead to, encloses one. -/
theorem reachable_exact (root : Node) (flow : Option FlowClass) (m : String) :
    let t := build root flow
    (∀ n, n ∈ t.reachable m ↔ TransGen t.Calls m n) ∧ (t.reachable m).Nodup ∧
      ∀ bubbles : ById Bubble, t.leadsToBubble bubbles m = true ↔
        ∃ n, (n = m ∨ TransGen t.Calls m n) ∧ ∃ c body, t.get? n = some c ∧ c.body = some body ∧
          ∃ b ∈ bubbles.values, body.location.encloses b.location = true := by
  intro t
  have hkeyed : t.Keyed := keyed_build root flow
  refine ⟨fun n => hkeyed.mem_reachable_iff, Graph.nodup_reachable t.graph m, fun bubbles => ?_⟩
  rw [leadsToBubble, List.any_eq_true]
  refine exists_congr fun n => ?_
  rw [List.mem_cons, hkeyed.mem_reachable_iff]
  refine and_congr_right fun _ => ?_
  cases t.get? n with
  | none => simp
  | some c => cases hbody : c.body <;> simp [Callable.bodyLocation?, hbody]

end CallTable

end Script

end FlowAnalysis
