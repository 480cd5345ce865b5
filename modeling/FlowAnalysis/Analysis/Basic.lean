import FlowAnalysis.Bubble.Basic
import FlowAnalysis.Workflow.Json

/-!
# The result of an analysis

An analysis gives every bubble of a script, the workflow of its entry point, and where the other
methods of the flow class are defined and called.
-/

namespace FlowAnalysis

/-- A workflow: its tree, and the bubbles that the tree refers to. -/
structure Workflow where
  root : List WorkflowNode
  bubbles : ById Bubble
  deriving Inhabited, Repr

namespace Workflow

/-- The workflow of a script without an entry point. -/
def empty : Workflow := ⟨[], .empty⟩

/-- The ids of the bubbles in the tree, in tree order. -/
def bubbleIds (w : Workflow) : List Int := WorkflowNode.bubbleIdsAll w.root

/-- A workflow as JSON. -/
def toJson (w : Workflow) : Json :=
  .obj [("root", .arr (WorkflowNode.toJsonAll w.root)), ("bubbles", .ofIds Bubble.toJson w.bubbles)]

/-- Reads a workflow. -/
def ofJson? (j : Json) : Option Workflow := do
  let r ← Json.Record.of? ["root", "bubbles"] j
  let root ← r.required "root" (Json.list? WorkflowNode.ofJson?)
  let bubbles ← r.required "bubbles" (Json.byId? Bubble.ofJson?)
  return ⟨root, bubbles⟩

end Workflow

/-- Where a method is defined and on which lines it is called. -/
structure MethodSite where
  definition : Location
  body : Location
  invocationLines : List Nat
  isAsync : Bool
  parameters : List String
  deriving DecidableEq, Repr, Inhabited

namespace MethodSite

/-- The members of a method as JSON. -/
def members (m : MethodSite) : List (String × Json) :=
  [("definition", m.definition.toJson), ("body", m.body.toJson),
    ("invocationLines", .ofList .ofNat m.invocationLines), ("isAsync", .bool m.isAsync),
    ("parameters", .ofList .str m.parameters)]

/-- A method as JSON. -/
def toJson (m : MethodSite) : Json := .obj m.members

/-- Reads a method. -/
def ofJson? (j : Json) : Option MethodSite := do
  let r ← Json.Record.of? ["definition", "body", "invocationLines", "isAsync", "parameters"] j
  let definition ← r.required "definition" Location.ofJson?
  let body ← r.required "body" Location.ofJson?
  let invocationLines ← r.required "invocationLines" (Json.list? Json.count?)
  let isAsync ← r.required "isAsync" Json.bool?
  let parameters ← r.required "parameters" (Json.list? Json.string?)
  return ⟨definition, body, invocationLines, isAsync, parameters⟩

end MethodSite

/-- The result of an analysis. -/
structure Analysis where
  /-- Every bubble of the script. -/
  bubbles : ById Bubble
  workflow : Workflow
  /-- The methods of the flow class other than its entry point. -/
  methods : ByName MethodSite
  deriving Inhabited, Repr

namespace Analysis

/-- An analysis as JSON. -/
def toJson (a : Analysis) : Json :=
  .obj [("bubbles", .ofIds Bubble.toJson a.bubbles), ("workflow", a.workflow.toJson),
    ("instanceMethodLocations", .ofNames MethodSite.toJson a.methods)]

/-- Reads an analysis. -/
def ofJson? (j : Json) : Option Analysis := do
  let r ← Json.Record.of? ["bubbles", "workflow", "instanceMethodLocations"] j
  let bubbles ← r.required "bubbles" (Json.byId? Bubble.ofJson?)
  let workflow ← r.required "workflow" Workflow.ofJson?
  let methods ← r.required "instanceMethodLocations" (Json.byName? MethodSite.ofJson?)
  return ⟨bubbles, workflow, methods⟩

end Analysis

end FlowAnalysis
