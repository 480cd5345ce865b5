import FlowAnalysis.Dependency.Closure
import FlowAnalysis.Remaining
import FlowAnalysis.Text.Units

/-!
# Building dependency trees

Below a bubble stand its dependencies, one node per use, and then its tools.  A name that already
stands on the way from the root is not expanded again; an agent met again keeps only the tools of
that use.  Nodes of one name below one node are numbered from one.
-/

namespace FlowAnalysis

namespace DependencyNode

/-- How many nodes of a name have been made below the node of an id. -/
abbrev Ranks := List ((String × String) × Nat)

namespace Ranks

/-- The next rank for a name below an id, and the ranks with it counted. -/
def next (r : Ranks) (parent name : String) : Nat × Ranks :=
  let rank := (r.lookup (parent, name)).getD 0 + 1
  (rank, ((parent, name), rank) :: r)

end Ranks

/-- The number of registered names that are not on a path. -/
def unvisited (registry : Registry) (path : List String) : Nat :=
  remaining (registry.descriptors.map (·.name)) path

/-- What stands below a descriptor: its dependencies, one per use, then tools. -/
def uses (d : Descriptor) (tools : List String) : List (String × DependencyInstance) :=
  (d.dependencySpecs.flatMap fun s => s.expandedInstances.map fun i => (s.name, i))
    ++ tools.map fun t => (t, ({} : DependencyInstance))

/-- One when some use has tools, and zero otherwise. -/
def weight (us : List (String × DependencyInstance)) : Nat :=
  (us.any fun u => !u.2.tools.isEmpty).toNat

theorem weight_tools (tools : List String) :
    weight (tools.map fun t => (t, ({} : DependencyInstance))) = 0 := by
  simp [weight]

theorem weight_pos {u : String × DependencyInstance} (h : u.2.tools ≠ []) : 0 < weight [u] := by
  rw [weight, List.any_cons]
  cases ht : u.2.tools with
  | nil => exact absurd ht h
  | cons t ts => simp

theorem weight_head_le (u : String × DependencyInstance) (us : List (String × DependencyInstance)) :
    weight [u] ≤ weight (u :: us) := by
  rw [weight, weight, List.any_cons, List.any_cons]
  cases u.2.tools.isEmpty <;> cases us.any _ <;> decide

theorem weight_tail_le (u : String × DependencyInstance) (us : List (String × DependencyInstance)) :
    weight us ≤ weight (u :: us) := by
  rw [weight, weight, List.any_cons]
  cases u.2.tools.isEmpty <;> cases us.any _ <;> decide

theorem unvisited_cons_lt {registry : Registry} {path : List String} {d : Descriptor}
    (hd : d ∈ registry.descriptors) (hp : ¬ d.name ∈ path) :
    unvisited registry (d.name :: path) < unvisited registry path :=
  remaining_cons_lt (List.mem_map_of_mem hd) hp

mutual

/-- The node for one use of a name below a node, with the names on the way to it. -/
def expand (registry : Registry) (path : List String) (use : String × DependencyInstance)
    (parent : String) (ranks : Ranks) : DependencyNode × Ranks :=
  let (rank, ranks) := ranks.next parent use.1
  let id := s!"{parent}.{use.1}#{rank}"
  match _h : registry.descriptors.find? fun d => d.name == use.1 with
  | none => (⟨use.1, use.2.variableName, .unknown, id, Text.hashId id, []⟩, ranks)
  | some d =>
    let below : List DependencyNode × Ranks :=
      if _hp : use.1 ∈ path then
        if _ht : d.isAgent = true ∧ use.2.tools ≠ [] then
          expandAll registry path (use.2.tools.map fun t => (t, {})) id ranks
        else ([], ranks)
      else
        expandAll registry (use.1 :: path) (uses d (if d.isAgent then use.2.tools else [])) id ranks
    (⟨use.1, use.2.variableName, d.nodeType, id, Text.hashId id, below.1⟩, below.2)
termination_by (unvisited registry path, weight [use], 0)
decreasing_by
  · refine Prod.Lex.right _ (Prod.Lex.left _ _ ?_)
    rw [weight_tools]
    exact weight_pos _ht.2
  · refine Prod.Lex.left _ _ ?_
    have hn : d.name = use.1 := by simpa using List.find?_some _h
    exact hn ▸ unvisited_cons_lt (List.mem_of_find?_eq_some _h) (hn ▸ _hp)

/-- The nodes for several uses below one node. -/
def expandAll (registry : Registry) (path : List String) :
    List (String × DependencyInstance) → String → Ranks → List DependencyNode × Ranks
  | [], _, ranks => ([], ranks)
  | u :: us, parent, ranks =>
    let (node, ranks) := expand registry path u parent ranks
    let (nodes, ranks) := expandAll registry path us parent ranks
    (node :: nodes, ranks)
termination_by us => (unvisited registry path, weight us, us.length + 1)
decreasing_by
  · refine Prod.Lex.right _ ?_
    rcases Nat.lt_or_eq_of_le (weight_head_le u us) with h | h
    · exact Prod.Lex.left _ _ h
    · rw [h]
      exact Prod.Lex.right _ (Nat.succ_pos _)
  · refine Prod.Lex.right _ ?_
    rcases Nat.lt_or_eq_of_le (weight_tail_le u us) with h | h
    · exact Prod.Lex.left _ _ h
    · rw [h]
      exact Prod.Lex.right _ (by simp)

end

end DependencyNode

namespace Bubble

/-- The tree of what a bubble depends on. -/
def dependencyTree (b : Bubble) (registry : Registry) : DependencyNode :=
  let id := toString b.variableId
  let below :=
    match registry.get? b.bubbleName with
    | none => []
    | some d =>
      let tools := if d.isAgent then b.configuredTools registry else []
      (DependencyNode.expandAll registry [b.bubbleName] (DependencyNode.uses d tools) id []).1
  ⟨b.bubbleName, some b.variableName, b.nodeType, id, b.variableId, below⟩

/-- The bubble with what it depends on. -/
def withDependencies (b : Bubble) (registry : Registry) : Bubble :=
  { b with
    dependencies := some (b.flatDependencies registry)
    dependencyGraph := some (b.dependencyTree registry) }

end Bubble

end FlowAnalysis
