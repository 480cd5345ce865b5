import FlowAnalysis.Proofs.Graph.Closure
import Mathlib.Order.Lattice.Nat

/-!
# Nearer names are found first

The distance of a name is the least number of steps that lead to it.  The proof that a search finds
names in the order of their distances follows its turns:

* `Ordered`: the names found ascend in distance, the queue is their end, and none of them is more
  than one step farther than the head of the queue;
* `Ordered.mem_seen`: so every name as near as the head of the queue has been found;
* `Ordered.distance_fresh`: a name that is new is therefore one step farther than the head, and can
  stand behind all names found so far;
* `ascending_closure`: at the end all names ascend, each found once.
-/

namespace FlowAnalysis

open Relation

/-! ### Distances -/

/-- A name can be reached in a number of steps. -/
inductive InSteps (r : String → String → Prop) (start : String) : Nat → String → Prop
  | here : InSteps r start 0 start
  | step {k : Nat} {n m : String} (reached : InSteps r start k n) (leads : r n m) :
      InSteps r start (k + 1) m

/-- The least number of steps in which a name can be reached. -/
noncomputable def distance (r : String → String → Prop) (start n : String) : Nat :=
  sInf {k | InSteps r start k n}

section

variable {r : String → String → Prop} {start n m : String}

theorem InSteps.distance_le {k : Nat} (h : InSteps r start k n) : distance r start n ≤ k :=
  Nat.sInf_le h

theorem inSteps_distance (h : ReflTransGen r start n) : InSteps r start (distance r start n) n := by
  have hsome : ∃ k, InSteps r start k n := by
    induction h with
    | refl => exact ⟨0, .here⟩
    | tail _ hstep ih =>
      obtain ⟨k, hk⟩ := ih
      exact ⟨k + 1, hk.step hstep⟩
  exact Nat.sInf_mem hsome

theorem distance_le_succ (h : ReflTransGen r start n) (hstep : r n m) :
    distance r start m ≤ distance r start n + 1 :=
  ((inSteps_distance h).step hstep).distance_le

end

namespace Graph

/-! ### One turn of the search -/

/-- What holds of the order of the names at every turn of a search. -/
structure Ordered (g : Graph) (start : String) (queue seen : List String) : Prop where
  started : start ∈ seen
  nodup : seen.Nodup
  /-- The names not yet looked at are those found last. -/
  latest : queue <:+ seen
  ascending : seen.Pairwise fun n m => distance g.Leads start n ≤ distance g.Leads start m
  near : ∀ name ∈ queue.head?, ∀ n ∈ seen, distance g.Leads start n ≤
    distance g.Leads start name + 1

namespace Ordered

variable {g : Graph} {start name : String} {rest seen : List String}

theorem initial (g : Graph) (start : String) : Ordered g start [start] [start] where
  started := List.mem_singleton.2 rfl
  nodup := List.nodup_singleton start
  latest := List.suffix_rfl
  ascending := List.pairwise_singleton _ start
  near := by simp

/-- The head of the queue is the nearest name in it. -/
theorem le_of_mem_rest (h : Ordered g start (name :: rest) seen) :
    ∀ n ∈ rest, distance g.Leads start name ≤ distance g.Leads start n :=
  (List.pairwise_cons.1 (h.ascending.sublist h.latest.sublist)).1

/-- Every name that is at most as far as the head of the queue has been found. -/
theorem mem_seen (h : Ordered g start (name :: rest) seen)
    (hs : Searching g start (name :: rest) seen) {k : Nat} {n : String}
    (hn : InSteps g.Leads start k n) (hk : k ≤ distance g.Leads start name) : n ∈ seen := by
  induction hn with
  | here => exact h.started
  | @step k n m hn hleads ih =>
    have hseen : n ∈ seen := ih (by omega)
    have hlt : distance g.Leads start n < distance g.Leads start name := by
      have := hn.distance_le
      omega
    -- A name nearer than the head of the queue is no longer in it, so its successors are known.
    have hqueue : n ∉ name :: rest := by
      intro hmem
      rcases List.mem_cons.1 hmem with rfl | hmem
      · omega
      · have := h.le_of_mem_rest n hmem
        omega
    exact hs.closed n hseen hqueue m hleads

/-- A name that is found through the head of the queue is one step farther than the head. -/
theorem distance_fresh (h : Ordered g start (name :: rest) seen)
    (hs : Searching g start (name :: rest) seen) {m : String} (hm : m ∉ seen)
    (hleads : g.Leads name m) :
    distance g.Leads start m = distance g.Leads start name + 1 := by
  have hname : ReflTransGen g.Leads start name :=
    hs.reached name (hs.queued name List.mem_cons_self)
  have hle := distance_le_succ hname hleads
  have hlt : ¬ distance g.Leads start m ≤ distance g.Leads start name := fun hle =>
    hm (h.mem_seen hs (inSteps_distance (hname.tail hleads)) hle)
  omega

theorem expand (h : Ordered g start (name :: rest) seen)
    (hs : Searching g start (name :: rest) seen) :
    Ordered g start (rest ++ fresh seen (g.successors name))
      (seen ++ fresh seen (g.successors name)) := by
  have hnew : ∀ m ∈ fresh seen (g.successors name),
      distance g.Leads start m = distance g.Leads start name + 1 := by
    intro m hm
    obtain ⟨hsucc, hseen⟩ := mem_fresh.1 hm
    exact h.distance_fresh hs hseen hsucc
  have hnear : ∀ n ∈ seen ++ fresh seen (g.successors name),
      distance g.Leads start n ≤ distance g.Leads start name + 1 := by
    intro n hn
    rcases List.mem_append.1 hn with hn | hn
    · exact h.near name rfl n hn
    · exact (hnew n hn).le
  refine ⟨List.mem_append_left _ h.started, ?_, ?_, ?_, ?_⟩
  · refine List.nodup_append.2 ⟨h.nodup, nodup_fresh seen _, ?_⟩
    rintro n hn m hm rfl
    exact (mem_fresh.1 hm).2 hn
  · obtain ⟨looked, hlooked⟩ := (List.suffix_cons name rest).trans h.latest
    exact ⟨looked, by rw [← List.append_assoc, hlooked]⟩
  · -- The new names are all at one distance, which no name found before exceeds.
    refine List.pairwise_append.2 ⟨h.ascending, ?_, fun n hn m hm => ?_⟩
    · exact List.pairwise_of_forall_mem_list fun n hn m hm => by rw [hnew n hn, hnew m hm]
    · rw [hnew m hm]
      exact h.near name rfl n hn
  · intro next hnext n hn
    have hle := hnear n hn
    have hnext : distance g.Leads start name ≤ distance g.Leads start next := by
      rcases List.mem_append.1 (List.mem_of_head? hnext) with hmem | hmem
      · exact h.le_of_mem_rest next hmem
      · have := hnew next hmem
        omega
    omega

end Ordered

/-! ### The whole search -/

/-- A search gives names in ascending order behind those found before, each once. -/
theorem ascending_search {g : Graph} {start : String} {queue seen : List String}
    (hs : Searching g start queue seen) (h : Ordered g start queue seen) :
    (seen ++ search g queue seen).Nodup ∧
      (seen ++ search g queue seen).Pairwise fun n m =>
        distance g.Leads start n ≤ distance g.Leads start m := by
  fun_induction search g queue seen with
  | case1 seen =>
    rw [List.append_nil]
    exact ⟨h.nodup, h.ascending⟩
  | case2 seen name rest found ih =>
    rw [← List.append_assoc]
    exact ih hs.expand (h.expand hs)

/-- **A search finds nearer names first.**  The names found from a start are distinct and ascend
in their distances from it. -/
theorem ascending_closure (g : Graph) (start : String) :
    (g.closure start).Nodup ∧
      (g.closure start).Pairwise fun n m =>
        distance g.Leads start n ≤ distance g.Leads start m := by
  obtain ⟨hnodup, hascending⟩ :=
    ascending_search (Searching.initial g start) (Ordered.initial g start)
  exact ⟨(List.nodup_cons.1 hnodup).2, (List.pairwise_cons.1 hascending).2⟩

end Graph

end FlowAnalysis
