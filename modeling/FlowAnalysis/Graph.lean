import FlowAnalysis.Remaining

/-!
# Reachability

A graph gives each name its successors.  Two searches find every name that can be reached from a
start.  `search` finds names in the order of their distances: it keeps a queue of names that were
found and not yet looked at.  `visit` goes deep first: it keeps a stack of names that are still to
be visited.  Both end because no name is found or visited twice.
-/

namespace FlowAnalysis

/-- The successors of each name; a name without an entry has none. -/
abbrev Graph := List (String × List String)

namespace Graph

/-- The successors of a name. -/
def successors (g : Graph) (name : String) : List String := (g.lookup name).getD []

/-! ### Breadth-first -/

/-- The names of a list that have not been seen, each once. -/
def fresh (seen : List String) : List String → List String
  | [] => []
  | n :: ns => if seen.contains n then fresh seen ns else n :: fresh (n :: seen) ns

/-- All successors of all names. -/
def targets (g : Graph) : List String := g.flatMap Prod.snd

theorem mem_targets_of_mem_successors {g : Graph} {name n : String} (h : n ∈ g.successors name) :
    n ∈ g.targets := by
  induction g with
  | nil => cases h
  | cons e es ih =>
    rw [successors, List.lookup_cons] at h
    rw [targets, List.flatMap_cons, List.mem_append]
    split at h
    · exact .inl h
    · exact .inr (ih h)

/-- Names that are found are no longer left. -/
theorem remaining_fresh_le {names : List String} (seen : List String) {ns : List String}
    (h : ∀ n ∈ ns, n ∈ names) :
    remaining names (seen ++ fresh seen ns) + (fresh seen ns).length ≤ remaining names seen := by
  induction ns generalizing seen with
  | nil => simp only [fresh, List.append_nil, List.length_nil, Nat.add_zero, Nat.le_refl]
  | cons n ns ih =>
    have hns : ∀ m ∈ ns, m ∈ names := fun m hm => h m (List.mem_cons_of_mem n hm)
    rw [fresh]
    split
    · exact ih seen hns
    · next hn =>
      have hlt := remaining_cons_lt (h n List.mem_cons_self) (by simpa using hn)
      have hrest := ih (n :: seen) hns
      have hsame : remaining names (seen ++ n :: fresh (n :: seen) ns)
          = remaining names (n :: seen ++ fresh (n :: seen) ns) :=
        remaining_congr names (by simp [or_left_comm])
      rw [hsame, List.length_cons]
      omega

/-- Breadth-first search.  `queue` holds the names found and not yet looked at, `seen` all names
found.  Gives the names found from here on. -/
def search (g : Graph) (queue seen : List String) : List String :=
  match queue with
  | [] => []
  | name :: rest =>
    let found := fresh seen (g.successors name)
    found ++ search g (rest ++ found) (seen ++ found)
termination_by remaining g.targets seen + queue.length
decreasing_by
  have := remaining_fresh_le seen fun n => @mem_targets_of_mem_successors g name n
  rw [List.length_append, List.length_cons]
  omega

/-- The names other than `start` that can be reached from it, nearest first. -/
def closure (g : Graph) (start : String) : List String := search g [start] [start]

/-! ### Depth-first -/

/-- How many successors the names that were not visited have. -/
def pending (g : Graph) (seen : List String) : Nat :=
  (targets (g.filter fun e => !seen.contains e.1)).length

theorem pending_cons_entry (e : String × List String) (es : Graph) (seen : List String) :
    pending (e :: es) seen = (if seen.contains e.1 then 0 else e.2.length) + pending es seen := by
  rw [pending, pending, List.filter_cons]
  cases seen.contains e.1 with
  | true => simp
  | false => simp [targets]

/-- Visiting a name takes its successors off those that are pending. -/
theorem pending_visit_le (g : Graph) {name : String} {seen : List String} (h : name ∉ seen) :
    pending g (name :: seen) + (g.successors name).length ≤ pending g seen := by
  have hmono : ∀ es : Graph, pending es (name :: seen) ≤ pending es seen := by
    intro es
    induction es with
    | nil => exact Nat.le_refl _
    | cons e es ih =>
      rw [pending_cons_entry, pending_cons_entry, List.contains_cons]
      cases e.1 == name <;> cases seen.contains e.1 <;> simp <;> omega
  induction g with
  | nil => exact Nat.le_refl _
  | cons e es ih =>
    rw [pending_cons_entry, pending_cons_entry, successors, List.lookup_cons, List.contains_cons]
    by_cases he : e.1 = name
    · have := hmono es
      simp [he, h]
      omega
    · rw [beq_false_of_ne he, beq_false_of_ne (Ne.symm he), Bool.false_or]
      rw [successors] at ih
      dsimp only
      omega

/-- Depth-first search.  `stack` holds the names still to be visited, `seen` those that were.  Gives
the names visited from here on: a name, then what its successors lead to, one after the other. -/
def visit (g : Graph) (stack seen : List String) : List String :=
  match stack with
  | [] => []
  | name :: rest =>
    if _h : name ∈ seen then visit g rest seen
    else
      let next := (g.successors name).filter fun n => !(name :: seen).contains n
      name :: visit g (next ++ rest) (name :: seen)
termination_by pending g seen + stack.length
decreasing_by
  · rw [List.length_cons]
    omega
  · have := pending_visit_le g _h
    have := List.length_filter_le (fun n => !(name :: seen).contains n) (g.successors name)
    rw [List.length_append, List.length_cons]
    omega

/-- The names that can be reached in one or more steps, in the order of a depth-first visit; `start`
itself comes last, when one of them leads back to it. -/
def reachable (g : Graph) (start : String) : List String :=
  let others := (visit g [start] []).filter fun n => n != start
  if (start :: others).any fun n => (g.successors n).contains start then others ++ [start]
  else others

end Graph

end FlowAnalysis
