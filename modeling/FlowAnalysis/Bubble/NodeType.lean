import FlowAnalysis.Json.Record

/-!
# The types of bubbles
-/

namespace FlowAnalysis

/-- What a bubble does. -/
inductive NodeType
  | service
  | tool
  | workflow
  | unknown
  deriving DecidableEq, Repr, Inhabited

namespace NodeType

/-- The word for a type. -/
def name : NodeType → String
  | service => "service"
  | tool => "tool"
  | workflow => "workflow"
  | unknown => "unknown"

/-- The type that a word stands for. -/
def ofName? : String → Option NodeType
  | "service" => some service
  | "tool" => some tool
  | "workflow" => some workflow
  | "unknown" => some unknown
  | _ => none

/-- A type as JSON. -/
def toJson (t : NodeType) : Json := .str t.name

/-- Reads a type. -/
def ofJson? : Json → Option NodeType := Json.choice? ofName?

end NodeType

end FlowAnalysis
