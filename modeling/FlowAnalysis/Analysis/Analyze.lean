import FlowAnalysis.Bubble.Locate
import FlowAnalysis.Dependency.Tree
import FlowAnalysis.Problem
import FlowAnalysis.Workflow.Build

/-!
# Analysing a script

Bubbles are located and get their dependencies, the entry point of the first flow class becomes the
workflow, and the result must keep every invariant.  A script without a flow class or an entry point
still has bubbles, and an empty workflow.
-/

namespace FlowAnalysis

open Script

namespace Analysis

/-- The bubbles that the entry point reaches: those in its body and, when calls are expanded, in the
body of anything that it leads to. -/
def reached (bubbles : ById Bubble) (calls : CallTable) (options : Options) : List Int :=
  let names := "handle" :: if options.expandMethodCalls then calls.reachable "handle" else []
  let bodies := names.filterMap fun name => (calls.get? name).bind (·.bodyLocation?)
  (bubbles.values.filter fun b => bodies.any fun body => body.encloses b.location).map
    (·.variableId)

/-- The ids in ascending order, each once. -/
def ascending (ids : List Int) : List Int := (ids.mergeSort (· ≤ ·)).eraseReps

/-- The bubbles of a script with what they depend on. -/
def locate (p : ParsedScript) (registry : Registry) (options : Options) :
    Except (List Problem) (ById Bubble) :=
  match Bubble.locate p registry options with
  | .ok bubbles => .ok bubbles
  | .error u => .error [⟨.unboundBubble u.name, some u.line⟩]

/-- The analysis of a script that has been read. -/
def ofScript (p : ParsedScript) (registry : Registry) (options : Options) :
    Except (List Problem) Analysis := do
  let located ← locate p registry options
  let bubbles := located.map fun b => b.withDependencies registry
  let flow := (FlowClass.all options.flowBaseClass p.root).head?
  let calls := CallTable.build p.root flow
  let (workflow, expected) :=
    match flow.bind (·.handle?) with
    | some handle =>
      (Workflow.build p.root handle bubbles calls options,
        ascending (reached bubbles calls options))
    | none => (.empty, [])
  let result : Analysis := ⟨bubbles, workflow, calls.methodSites⟩
  match result.violations ++ result.missingLeaves expected with
  | [] => return result
  | vs => throw (vs.map .ofViolation)

end Analysis

namespace ParsedScript

/-- Reads a script, or says that it is broken. -/
def read (source : String) : Except (List Problem) ParsedScript :=
  match ParsedScript.parse? source with
  | some p => .ok p
  | none => .error [⟨.broken, none⟩]

end ParsedScript

namespace Analysis

/-- The analysis of a script. -/
def ofText (source : String) (registry : Registry) (options : Options) :
    Except (List Problem) Analysis := do
  ofScript (← ParsedScript.read source) registry options

end Analysis

end FlowAnalysis
