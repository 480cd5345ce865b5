import FlowAnalysis.Graph
import Mathlib.Logic.Relation

/-!
# What a search through a graph finds

The search keeps the names found so far apart from those among them that are not yet looked at.
All of them can be reached from the start, and what has been looked at leads only to names that
have been found (`Searching`).  One turn of the search keeps this, so at its end the names found
are closed under the steps of the graph, whatever cycles it has: they are the names that can be
reached (`mem_closure_iff`).

A visit that goes deep first keeps the same with its stack in place of the queue (`Visiting`):
what was visited leads to names that were visited or are on the stack.  It too meets all that can
be reached (`mem_visit_iff`).
-/

namespace FlowAnalysis.Graph

open Relation

/-- One name leads to another in one step. -/
def Leads (g : Graph) (n m : String) : Prop := m ∈ g.successors n

theorem lookup_eq_find? (g : Graph) (n : String) :
    g.lookup n = (g.find? fun e => e.1 == n).map Prod.snd := by
  induction g with
  | nil => rfl
  | cons e es ih =>
    rw [List.lookup_cons, List.find?_cons, ih]
    by_cases h : n = e.1
    · simp [h]
    · rw [beq_false_of_ne h, beq_false_of_ne (Ne.symm h)]

/-! ### Fresh names -/

theorem mem_fresh {n : String} {seen names : List String} :
    n ∈ fresh seen names ↔ n ∈ names ∧ n ∉ seen := by
  induction names generalizing seen with
  | nil => simp [fresh]
  | cons m ms ih =>
    rw [fresh]
    by_cases hm : m ∈ seen
    · have hseen : ∀ a, a ∉ seen → a ≠ m := fun a ha he => ha (he ▸ hm)
      rw [if_pos (by simpa using hm), ih]
      grind
    · rw [if_neg (by simpa using hm), List.mem_cons, ih]
      grind

theorem nodup_fresh (seen names : List String) : (fresh seen names).Nodup := by
  induction names generalizing seen with
  | nil => exact .nil
  | cons m ms ih =>
    rw [fresh]
    split
    · exact ih seen
    · refine List.nodup_cons.2 ⟨fun hm => ?_, ih (m :: seen)⟩
      exact (mem_fresh.1 hm).2 List.mem_cons_self

/-! ### One turn of the search -/

/-- The state of a search: the names in the queue are found; the names found can be reached, and
those no longer in the queue lead to names that are found. -/
structure Searching (g : Graph) (start : String) (queue seen : List String) : Prop where
  queued : ∀ n ∈ queue, n ∈ seen
  closed : ∀ n ∈ seen, n ∉ queue → ∀ m, g.Leads n m → m ∈ seen
  reached : ∀ n ∈ seen, ReflTransGen g.Leads start n

namespace Searching

variable {g : Graph} {start name : String} {rest seen : List String}

theorem initial (g : Graph) (start : String) : Searching g start [start] [start] where
  queued := fun _ h => h
  closed := fun _ h hn => absurd h hn
  reached := fun n h => by
    obtain rfl := List.mem_singleton.1 h
    exact .refl

/-- The names that the head of the queue leads to are found, and the new ones among them join the
queue. -/
theorem expand (h : Searching g start (name :: rest) seen) :
    Searching g start (rest ++ fresh seen (g.successors name))
      (seen ++ fresh seen (g.successors name)) := by
  have hname : name ∈ seen := h.queued name List.mem_cons_self
  refine ⟨?_, ?_, ?_⟩
  · intro n hn
    rcases List.mem_append.1 hn with hn | hn
    · exact List.mem_append_left _ (h.queued n (List.mem_cons_of_mem _ hn))
    · exact List.mem_append_right _ hn
  · intro n hn hq m hm
    obtain ⟨hqr, hqf⟩ := not_or.1 (mt List.mem_append.2 hq)
    have hseen : n ∈ seen := (List.mem_append.1 hn).resolve_right hqf
    by_cases heq : n = name
    · rw [Leads, heq] at hm
      by_cases hms : m ∈ seen
      · exact List.mem_append_left _ hms
      · exact List.mem_append_right _ (mem_fresh.2 ⟨hm, hms⟩)
    · exact List.mem_append_left _ (h.closed n hseen (by simp [heq, hqr]) m hm)
  · intro n hn
    rcases List.mem_append.1 hn with hn | hn
    · exact h.reached n hn
    · have hstep : g.Leads name n := (mem_fresh.1 hn).1
      exact (h.reached name hname).tail hstep

end Searching

/-! ### The whole search -/

/-- A search ends with nothing left to look at, and what it gives was not found before. -/
theorem searching_search {g : Graph} {start : String} {queue seen : List String}
    (h : Searching g start queue seen) :
    Searching g start [] (seen ++ search g queue seen) ∧
      ∀ n ∈ search g queue seen, n ∉ seen := by
  fun_induction search g queue seen with
  | case1 seen =>
    refine ⟨?_, by simp⟩
    rw [List.append_nil]
    exact h
  | case2 seen name rest found ih =>
    obtain ⟨hend, hnew⟩ := ih h.expand
    refine ⟨?_, ?_⟩
    · rw [← List.append_assoc]
      exact hend
    · intro n hn
      rcases List.mem_append.1 hn with hn | hn
      · exact (mem_fresh.1 hn).2
      · exact fun hs => hnew n hn (List.mem_append_left _ hs)

/-- What is closed under the steps of a graph has everything that can be reached from it. -/
theorem mem_of_reflTransGen {g : Graph} {start : String} {names : List String}
    (hstart : start ∈ names) (hclosed : ∀ n ∈ names, ∀ m, g.Leads n m → m ∈ names) {n : String}
    (h : ReflTransGen g.Leads start n) : n ∈ names := by
  induction h with
  | refl => exact hstart
  | tail _ hstep ih => exact hclosed _ ih _ hstep

/-- **A search finds exactly what can be reached.**  The names found from a start are those other
than the start that can be reached from it, whatever cycles the graph has. -/
theorem mem_closure_iff {g : Graph} {start n : String} :
    n ∈ g.closure start ↔ n ≠ start ∧ ReflTransGen g.Leads start n := by
  obtain ⟨hend, hnew⟩ := searching_search (Searching.initial g start)
  constructor
  · intro hn
    refine ⟨fun heq => hnew n hn (heq ▸ List.mem_cons_self), ?_⟩
    exact hend.reached n (List.mem_append_right _ hn)
  · rintro ⟨hne, hreach⟩
    have hfound : n ∈ [start] ++ search g [start] [start] :=
      mem_of_reflTransGen (List.mem_append_left _ List.mem_cons_self)
        (fun n hn => hend.closed n hn List.not_mem_nil) hreach
    rcases List.mem_append.1 hfound with hs | hs
    · exact absurd (List.mem_singleton.1 hs) hne
    · exact hs

/-! ### Going deep first -/

/-- The state of a visit: the names on the stack can be reached, and so can the names visited, which
lead to names that are visited or on the stack. -/
structure Visiting (g : Graph) (start : String) (stack seen : List String) : Prop where
  stacked : ∀ n ∈ stack, ReflTransGen g.Leads start n
  closed : ∀ n ∈ seen, ∀ m, g.Leads n m → m ∈ seen ∨ m ∈ stack
  reached : ∀ n ∈ seen, ReflTransGen g.Leads start n

namespace Visiting

variable {g : Graph} {start name : String} {rest seen : List String}

theorem initial (g : Graph) (start : String) : Visiting g start [start] [] where
  stacked := fun n h => by
    obtain rfl := List.mem_singleton.1 h
    exact .refl
  closed := fun _ h => absurd h List.not_mem_nil
  reached := fun _ h => absurd h List.not_mem_nil

/-- A name that was visited can be taken off the stack. -/
theorem drop (h : Visiting g start (name :: rest) seen) (hname : name ∈ seen) :
    Visiting g start rest seen where
  stacked := fun n hn => h.stacked n (List.mem_cons_of_mem _ hn)
  closed := fun n hn m hm => by
    rcases h.closed n hn m hm with hseen | hstack
    · exact .inl hseen
    · rcases List.mem_cons.1 hstack with rfl | hrest
      · exact .inl hname
      · exact .inr hrest
  reached := h.reached

/-- A name that is visited puts those of its successors on the stack that were not. -/
theorem enter (h : Visiting g start (name :: rest) seen) :
    Visiting g start
      ((g.successors name).filter (fun n => !(name :: seen).contains n) ++ rest)
        (name :: seen) := by
  have hname : ReflTransGen g.Leads start name := h.stacked name List.mem_cons_self
  refine ⟨?_, ?_, List.forall_mem_cons.2 ⟨hname, h.reached⟩⟩
  · intro n hn
    rcases List.mem_append.1 hn with hn | hn
    · exact hname.tail (List.mem_filter.1 hn).1
    · exact h.stacked n (List.mem_cons_of_mem _ hn)
  · intro n hn m hm
    rcases List.mem_cons.1 hn with rfl | hn
    · by_cases hseen : m ∈ n :: seen
      · exact .inl hseen
      · exact .inr (List.mem_append_left _ (List.mem_filter.2 ⟨hm, by simpa using hseen⟩))
    · rcases h.closed n hn m hm with hseen | hstack
      · exact .inl (List.mem_cons_of_mem _ hseen)
      · rcases List.mem_cons.1 hstack with rfl | hrest
        · exact .inl List.mem_cons_self
        · exact .inr (List.mem_append_right _ hrest)

end Visiting

/-- A visit ends with an empty stack.  What was on the stack is visited by then, and
nothing is visited twice. -/
theorem visiting_visit {g : Graph} {start : String} {stack seen : List String}
    (h : Visiting g start stack seen) :
    Visiting g start [] ((visit g stack seen).reverse ++ seen) ∧
      (∀ n ∈ stack, n ∈ (visit g stack seen).reverse ++ seen) ∧
      (visit g stack seen).Nodup ∧ ∀ n ∈ visit g stack seen, n ∉ seen := by
  fun_induction visit g stack seen with
  | case1 seen => exact ⟨h, by simp, .nil, by simp⟩
  | case2 seen name rest hname ih =>
    obtain ⟨hend, hstack, hnodup, hnew⟩ := ih (h.drop hname)
    exact ⟨hend, List.forall_mem_cons.2 ⟨List.mem_append_right _ hname, hstack⟩, hnodup, hnew⟩
  | case3 seen name rest hname next ih =>
    obtain ⟨hend, hstack, hnodup, hnew⟩ := ih h.enter
    rw [List.reverse_cons, List.append_assoc, List.singleton_append]
    refine ⟨hend, List.forall_mem_cons.2 ⟨by simp, fun n hn => ?_⟩, ?_, ?_⟩
    · exact hstack n (List.mem_append_right _ hn)
    · exact List.nodup_cons.2 ⟨fun hn => hnew name hn List.mem_cons_self, hnodup⟩
    · refine List.forall_mem_cons.2 ⟨hname, fun n hn hseen => ?_⟩
      exact hnew n hn (List.mem_cons_of_mem _ hseen)

/-- **A visit from a start meets exactly what can be reached**, the start included. -/
theorem mem_visit_iff {g : Graph} {start n : String} :
    n ∈ visit g [start] [] ↔ ReflTransGen g.Leads start n := by
  obtain ⟨hend, hstack, -⟩ := visiting_visit (Visiting.initial g start)
  simp only [List.append_nil, List.mem_reverse] at hstack
  rw [List.append_nil] at hend
  have hclosed : ∀ n ∈ visit g [start] [], ∀ m, g.Leads n m → m ∈ visit g [start] [] := by
    intro n hn m hm
    simpa using hend.closed n (List.mem_reverse.2 hn) m hm
  exact ⟨fun hn => hend.reached n (List.mem_reverse.2 hn),
    mem_of_reflTransGen (hstack start List.mem_cons_self) hclosed⟩

theorem nodup_visit (g : Graph) (start : String) : (visit g [start] []).Nodup :=
  (visiting_visit (Visiting.initial g start)).2.2.1

end FlowAnalysis.Graph
