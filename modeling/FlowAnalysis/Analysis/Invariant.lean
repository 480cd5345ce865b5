import FlowAnalysis.Analysis.Basic

/-!
# Invariants of an analysis

What holds of every analysis: the bubbles in the tree are known and stand there once, the
workflow keeps exactly those bubbles, the ids in a dependency tree are distinct, the
bubbles without a variable are numbered in the order of the text, and no bubble that the
entry point reaches is missing.
-/

namespace FlowAnalysis

/-- A broken invariant. -/
inductive Violation
  | unknownLeaf (id : Int)
  | unreferenced (id : Int)
  | repeatedLeaf (id : Int)
  | repeatedDependency (id : Int) (uniqueId : String)
  | anonymousOrder (id expected : Int) (line : Nat)
  | missingLeaf (id : Int)
  deriving DecidableEq, Repr, Inhabited

namespace Violation

/-- The code of a violation. -/
def code : Violation → String
  | unknownLeaf _ => "E001"
  | unreferenced _ => "E002"
  | repeatedLeaf _ => "E003"
  | repeatedDependency .. => "E004"
  | anonymousOrder .. => "E005"
  | missingLeaf _ => "E006"

/-- The bubble on which a violation was found. -/
def bubbleId : Violation → Int
  | unknownLeaf id | unreferenced id | repeatedLeaf id | repeatedDependency id _
  | anonymousOrder id _ _ | missingLeaf id => id

/-- The message of a violation. -/
def message : Violation → String
  | unknownLeaf id => s!"Workflow leaf references unknown bubble {id}"
  | unreferenced id => s!"Bubble {id} is in the workflow map but not in the tree"
  | repeatedLeaf id => s!"Bubble {id} appears more than once in the workflow tree"
  | repeatedDependency _ uniqueId => s!"Duplicate dependency node id '{uniqueId}'"
  | anonymousOrder id expected line =>
    s!"Anonymous bubble at line {line} has id {id}, expected {expected}"
  | missingLeaf id => s!"Bubble {id} is reachable from handle but missing from the workflow tree"

/-- A violation as a line of text. -/
def display (v : Violation) : String := s!"[{v.code}] {v.message} (at bubble {v.bubbleId})"

end Violation

namespace Analysis

/-- The elements of a list that have come before, in order. -/
def repeated {α : Type} [BEq α] (seen : List α) : List α → List α
  | [] => []
  | a :: as => if seen.contains a then a :: repeated seen as else repeated (a :: seen) as

/-- Leaves that the workflow or the analysis does not know. -/
def unknownLeaves (a : Analysis) : List Violation :=
  (a.workflow.bubbleIds.filter fun id =>
    !a.workflow.bubbles.contains id || !a.bubbles.contains id).map .unknownLeaf

/-- Bubbles of the workflow that are no leaves. -/
def unreferencedBubbles (a : Analysis) : List Violation :=
  (a.workflow.bubbles.ids.filter fun id => !a.workflow.bubbleIds.contains id).map .unreferenced

/-- Leaves that come again. -/
def repeatedLeaves (a : Analysis) : List Violation :=
  (repeated [] a.workflow.bubbleIds).map .repeatedLeaf

/-- Ids that come again in a tree of dependencies. -/
def repeatedDependencies (a : Analysis) : List Violation :=
  a.bubbles.entries.flatMap fun (id, b) =>
    match b.dependencyGraph with
    | some tree => (repeated [] (tree.walk.map (·.uniqueId))).map (.repeatedDependency id)
    | none => []

/-- The bubbles without a variable, in the order of the text. -/
def anonymousInOrder (a : Analysis) : List Bubble :=
  (a.bubbles.values.filter (·.isAnonymous)).mergeSort fun b c =>
    !c.location.startsBefore b.location

/-- Bubbles without a variable whose id is not the one expected, counting down. -/
def misnumbered : Int → List Bubble → List Violation
  | _, [] => []
  | expected, b :: bs =>
    if b.variableId = expected then misnumbered (expected - 1) bs
    else
      .anonymousOrder b.variableId expected b.location.startLine :: misnumbered (expected - 1) bs

/-- Every broken invariant of an analysis. -/
def violations (a : Analysis) : List Violation :=
  a.unknownLeaves ++ a.unreferencedBubbles ++ a.repeatedLeaves ++ a.repeatedDependencies
    ++ misnumbered (-1) a.anonymousInOrder

/-- The expected bubbles that are no leaves. -/
def missingLeaves (a : Analysis) (expected : List Int) : List Violation :=
  (expected.filter fun id => !a.workflow.bubbleIds.contains id).map .missingLeaf

end Analysis

end FlowAnalysis
