import FlowAnalysis.Location

/-!
# Workflow trees

A workflow is the control flow of a flow's entry point, one node per statement, with the bubbles it
constructs as leaves.
-/

namespace FlowAnalysis

/-- The two kinds of loop. -/
inductive LoopKind
  | counted
  | conditional
  deriving DecidableEq, Repr, Inhabited

/-- The kinds of plain statement. -/
inductive CodeKind
  | block
  | declaration
  | result
  deriving DecidableEq, Repr, Inhabited

/-- A call leads to bubbles, or only transforms values. -/
inductive CallKind
  | effect
  | transformation
  deriving DecidableEq, Repr, Inhabited

/-- Where a called function is defined. -/
structure Definition where
  location : Location
  isAsync : Bool
  parameters : List String
  deriving DecidableEq, Repr, Inhabited

/-- A node of a workflow. -/
inductive WorkflowNode
  /-- The bubble with the given id. -/
  | bubble (variableId : Int)
  /-- An `if`; the flags say whether control never leaves the branches at their ends. -/
  | choice (location : Location) (condition : String) (children : List WorkflowNode)
      (otherwise : Option (List WorkflowNode)) (thenTerminates elseTerminates : Bool)
  | loop (kind : LoopKind) (location : Location) (condition : String)
      (children : List WorkflowNode)
  /-- A `try` with what follows a failure and what follows in any case. -/
  | attempt (location : Location) (children : List WorkflowNode)
      (handler finalizer : Option (List WorkflowNode))
  /-- A statement as text, with the bubbles and calls found in it. -/
  | code (kind : CodeKind) (location : Location) (code : String) (children : List WorkflowNode)
  /-- A call of a known function, with its body when it is expanded here. -/
  | call (kind : CallKind) (location : Location) (functionName : String) (isMethod : Bool)
      (definition : Option Definition) (binding : Option String) (code : String)
      (children : List WorkflowNode)
  /-- Tasks that run side by side. -/
  | parallel (location : Location) (binding : Option String) (code : String)
      (children : List WorkflowNode)
  deriving Repr, Inhabited

namespace WorkflowNode

/-- The word for the kind of a node. -/
def kind : WorkflowNode → String
  | .bubble _ => "bubble"
  | .choice .. => "if"
  | .loop .counted .. => "for"
  | .loop .conditional .. => "while"
  | .attempt .. => "try_catch"
  | .code .block .. => "code_block"
  | .code .declaration .. => "variable_declaration"
  | .code .result .. => "return"
  | .call .effect .. => "function_call"
  | .call .transformation .. => "transformation_function"
  | .parallel .. => "parallel_execution"

/-- Every list of nodes below a node: its children, then its other branches. -/
def branches : WorkflowNode → List (List WorkflowNode)
  | .bubble _ => []
  | .choice _ _ children otherwise _ _ => children :: otherwise.toList
  | .loop _ _ _ children => [children]
  | .attempt _ children handler finalizer => children :: (handler.toList ++ finalizer.toList)
  | .code _ _ _ children => [children]
  | .call _ _ _ _ _ _ _ children => [children]
  | .parallel _ _ _ children => [children]

/-- A node in a branch of a node is smaller than it. -/
theorem sizeOf_lt_of_mem_branches {n m : WorkflowNode} {ms : List WorkflowNode}
    (hms : ms ∈ n.branches) (hm : m ∈ ms) : sizeOf m < sizeOf n := by
  have hlt : sizeOf m < sizeOf ms := List.sizeOf_lt_of_mem hm
  have hle : sizeOf ms ≤ sizeOf n := by
    cases n with
    | bubble id => cases hms
    | choice location condition children otherwise thenTerminates elseTerminates =>
      rcases List.mem_cons.1 hms with rfl | hms
      · simp only [choice.sizeOf_spec]
        omega
      · obtain rfl := Option.mem_toList.1 hms
        simp only [choice.sizeOf_spec, Option.some.sizeOf_spec]
        omega
    | attempt location children handler finalizer =>
      rcases List.mem_cons.1 hms with rfl | hms
      · simp only [attempt.sizeOf_spec]
        omega
      · rcases List.mem_append.1 hms with hms | hms <;>
        · obtain rfl := Option.mem_toList.1 hms
          simp only [attempt.sizeOf_spec, Option.some.sizeOf_spec]
          omega
    | loop | code | call | parallel =>
      obtain rfl := List.mem_singleton.1 hms
      simp only [loop.sizeOf_spec, code.sizeOf_spec, call.sizeOf_spec, parallel.sizeOf_spec]
      omega
  omega

/-- What passes from the nodes in the branches of a node to the node holds of every node. -/
theorem branches_induction {motive : WorkflowNode → Prop}
    (step : ∀ n, (∀ ms ∈ n.branches, ∀ m ∈ ms, motive m) → motive n)
    (n : WorkflowNode) : motive n :=
  step n fun _ _ m _ => branches_induction step m
termination_by sizeOf n
decreasing_by exact sizeOf_lt_of_mem_branches ‹_› ‹_›

mutual

/-- The ids of the bubbles in a node, in tree order. -/
def bubbleIds : WorkflowNode → List Int
  | .bubble id => [id]
  | .choice _ _ children otherwise _ _ => bubbleIdsAll children ++ bubbleIdsOf otherwise
  | .loop _ _ _ children => bubbleIdsAll children
  | .attempt _ children handler finalizer =>
    bubbleIdsAll children ++ bubbleIdsOf handler ++ bubbleIdsOf finalizer
  | .code _ _ _ children => bubbleIdsAll children
  | .call _ _ _ _ _ _ _ children => bubbleIdsAll children
  | .parallel _ _ _ children => bubbleIdsAll children

/-- The ids of the bubbles in a list of nodes. -/
def bubbleIdsAll : List WorkflowNode → List Int
  | [] => []
  | n :: ns => bubbleIds n ++ bubbleIdsAll ns

/-- The ids of the bubbles in a branch that may be absent. -/
def bubbleIdsOf : Option (List WorkflowNode) → List Int
  | none => []
  | some ns => bubbleIdsAll ns

end

end WorkflowNode

end FlowAnalysis
