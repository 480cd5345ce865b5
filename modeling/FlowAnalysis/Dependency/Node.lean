import FlowAnalysis.Bubble.NodeType

/-!
# Dependency trees

Every node of the tree is one use of a bubble by the node above it.
-/

namespace FlowAnalysis

/-- A bubble in the tree of dependencies of another. -/
structure DependencyNode where
  name : String
  variableName : Option String
  nodeType : NodeType
  /-- The id of the node above, a dot, the name, a hash mark and the
  rank among nodes of the name. -/
  uniqueId : String
  variableId : Int
  dependencies : List DependencyNode
  deriving Repr, Inhabited

namespace DependencyNode

/-- What passes from the dependencies of a node to the node holds of every node. -/
theorem dependencies_induction {motive : DependencyNode → Prop}
    (step : ∀ n, (∀ d ∈ n.dependencies, motive d) → motive n) (n : DependencyNode) : motive n :=
  step n fun d _ => dependencies_induction step d
termination_by sizeOf n
decreasing_by
  have hlt : sizeOf d < sizeOf n.dependencies := List.sizeOf_lt_of_mem ‹_›
  obtain ⟨_, _, _, _, _, _⟩ := n
  simp only [mk.sizeOf_spec]
  dsimp only at hlt
  omega

mutual

/-- The node and every node below it, parents first. -/
def walk : DependencyNode → List DependencyNode
  | ⟨n, v, t, u, i, ds⟩ => ⟨n, v, t, u, i, ds⟩ :: walkAll ds

/-- The nodes of a list of trees, parents first. -/
def walkAll : List DependencyNode → List DependencyNode
  | [] => []
  | d :: ds => walk d ++ walkAll ds

end

mutual

/-- A tree as JSON. -/
def toJson : DependencyNode → Json
  | ⟨name, variableName, nodeType, uniqueId, variableId, dependencies⟩ =>
    .record [("name", some (.str name)), ("variableName", variableName.map .str),
      ("nodeType", some nodeType.toJson), ("uniqueId", some (.str uniqueId)),
      ("variableId", some (.int variableId)),
      ("dependencies", some (.arr (toJsonAll dependencies)))]

/-- Trees as JSON. -/
def toJsonAll : List DependencyNode → List Json
  | [] => []
  | d :: ds => toJson d :: toJsonAll ds

end

/-- The fields of a node. -/
def fields : List String :=
  ["name", "variableName", "nodeType", "uniqueId", "variableId", "dependencies"]

/-- Reads a tree that is nested at most as deep as the fuel allows. -/
def read? : Nat → Json → Option DependencyNode
  | 0, _ => none
  | fuel + 1, j => do
    let r ← Json.Record.of? fields j
    let name ← r.required "name" Json.string?
    let variableName ← r.optional "variableName" Json.string?
    let nodeType ← r.required "nodeType" NodeType.ofJson?
    let uniqueId ← r.required "uniqueId" Json.string?
    let variableId ← r.required "variableId" Json.id?
    let dependencies ← r.required "dependencies" (Json.list? (read? fuel))
    return ⟨name, variableName, nodeType, uniqueId, variableId, dependencies⟩

/-- Reads a tree. -/
def ofJson? (j : Json) : Option DependencyNode := read? j.depth j

end DependencyNode

end FlowAnalysis
