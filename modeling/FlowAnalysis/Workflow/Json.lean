import FlowAnalysis.Workflow.Node

/-!
# Workflow trees as JSON

A node is an object whose member `type` is the word for its kind.
-/

namespace FlowAnalysis

namespace Definition

/-- A definition as JSON. -/
def toJson (d : Definition) : Json :=
  .obj [("location", d.location.toJson), ("isAsync", .bool d.isAsync),
    ("parameters", .ofList .str d.parameters)]

/-- Reads a definition. -/
def ofJson? (j : Json) : Option Definition := do
  let r ← Json.Record.of? ["location", "isAsync", "parameters"] j
  let location ← r.required "location" Location.ofJson?
  let isAsync ← r.required "isAsync" Json.bool?
  let parameters ← r.required "parameters" (Json.list? Json.string?)
  return ⟨location, isAsync, parameters⟩

end Definition

namespace WorkflowNode

/-- The members that all nodes with a location begin with. -/
def head (kind : String) (location : Location) : List (String × Option Json) :=
  [("type", some (.str kind)), ("location", some location.toJson)]

mutual

/-- A node as JSON. -/
def toJson : WorkflowNode → Json
  | .bubble id => .record [("type", some (.str "bubble")), ("variableId", some (.int id))]
  | .choice location condition children otherwise thenTerminates elseTerminates =>
    .record (head "if" location ++
      [("condition", some (.str condition)), ("children", some (.arr (toJsonAll children))),
        ("elseBranch", toJsonOf otherwise), ("thenTerminates", some (.bool thenTerminates)),
        ("elseTerminates", some (.bool elseTerminates))])
  | .loop kind location condition children =>
    .record (head (match kind with | .counted => "for" | .conditional => "while") location ++
      [("condition", some (.str condition)), ("children", some (.arr (toJsonAll children)))])
  | .attempt location children handler finalizer =>
    .record (head "try_catch" location ++
      [("children", some (.arr (toJsonAll children))), ("catchBlock", toJsonOf handler),
        ("finallyBlock", toJsonOf finalizer)])
  | .code kind location text children =>
    .record (head (match kind with
        | .block => "code_block" | .declaration => "variable_declaration" | .result => "return")
        location ++
      [("code", some (.str text)), ("children", some (.arr (toJsonAll children)))])
  | .call kind location functionName isMethod definition binding text children =>
    .record (head (match kind with
        | .effect => "function_call" | .transformation => "transformation_function") location ++
      [("functionName", some (.str functionName)), ("isMethodCall", some (.bool isMethod)),
        ("methodDefinition", definition.map Definition.toJson),
        ("variableDeclaration", binding.map .str), ("code", some (.str text)),
        ("children", some (.arr (toJsonAll children)))])
  | .parallel location binding text children =>
    .record (head "parallel_execution" location ++
      [("variableDeclaration", binding.map .str), ("code", some (.str text)),
        ("children", some (.arr (toJsonAll children)))])

/-- Nodes as JSON. -/
def toJsonAll : List WorkflowNode → List Json
  | [] => []
  | n :: ns => toJson n :: toJsonAll ns

/-- A branch as JSON, when it is there. -/
def toJsonOf : Option (List WorkflowNode) → Option Json
  | none => none
  | some ns => some (.arr (toJsonAll ns))

end

/-- Reads the members of a loop. -/
def readLoop? (kind : LoopKind) (nodes? : Json → Option (List WorkflowNode)) (j : Json) :
    Option WorkflowNode := do
  let r ← Json.Record.of? ["location", "condition", "children"] j
  let location ← r.required "location" Location.ofJson?
  let condition ← r.required "condition" Json.string?
  let children ← r.required "children" nodes?
  return .loop kind location condition children

/-- Reads the members of a plain statement. -/
def readCode? (kind : CodeKind) (nodes? : Json → Option (List WorkflowNode)) (j : Json) :
    Option WorkflowNode := do
  let r ← Json.Record.of? ["location", "code", "children"] j
  let location ← r.required "location" Location.ofJson?
  let text ← r.required "code" Json.string?
  let children ← r.required "children" nodes?
  return .code kind location text children

/-- Reads the members of a call. -/
def readCall? (kind : CallKind) (nodes? : Json → Option (List WorkflowNode)) (j : Json) :
    Option WorkflowNode := do
  let r ← Json.Record.of? ["location", "functionName", "isMethodCall", "methodDefinition",
    "variableDeclaration", "code", "children"] j
  let location ← r.required "location" Location.ofJson?
  let functionName ← r.required "functionName" Json.string?
  let isMethod ← r.required "isMethodCall" Json.bool?
  let definition ← r.optional "methodDefinition" Definition.ofJson?
  let binding ← r.optional "variableDeclaration" Json.string?
  let text ← r.required "code" Json.string?
  let children ← r.required "children" nodes?
  return .call kind location functionName isMethod definition binding text children

/-- Reads the members of a node of the given kind. -/
def readKind? (nodes? : Json → Option (List WorkflowNode)) (kind : String) (j : Json) :
    Option WorkflowNode :=
  match kind with
  | "bubble" => do
    let r ← Json.Record.of? ["variableId"] j
    let id ← r.required "variableId" Json.id?
    return .bubble id
  | "if" => do
    let r ← Json.Record.of? ["location", "condition", "children", "elseBranch",
      "thenTerminates", "elseTerminates"] j
    let location ← r.required "location" Location.ofJson?
    let condition ← r.required "condition" Json.string?
    let children ← r.required "children" nodes?
    let otherwise ← r.optional "elseBranch" nodes?
    let thenTerminates ← r.required "thenTerminates" Json.bool?
    let elseTerminates ← r.required "elseTerminates" Json.bool?
    return .choice location condition children otherwise thenTerminates elseTerminates
  | "for" => readLoop? .counted nodes? j
  | "while" => readLoop? .conditional nodes? j
  | "try_catch" => do
    let r ← Json.Record.of? ["location", "children", "catchBlock", "finallyBlock"] j
    let location ← r.required "location" Location.ofJson?
    let children ← r.required "children" nodes?
    let handler ← r.optional "catchBlock" nodes?
    let finalizer ← r.optional "finallyBlock" nodes?
    return .attempt location children handler finalizer
  | "code_block" => readCode? .block nodes? j
  | "variable_declaration" => readCode? .declaration nodes? j
  | "return" => readCode? .result nodes? j
  | "function_call" => readCall? .effect nodes? j
  | "transformation_function" => readCall? .transformation nodes? j
  | "parallel_execution" => do
    let r ← Json.Record.of? ["location", "variableDeclaration", "code", "children"] j
    let location ← r.required "location" Location.ofJson?
    let binding ← r.optional "variableDeclaration" Json.string?
    let text ← r.required "code" Json.string?
    let children ← r.required "children" nodes?
    return .parallel location binding text children
  | _ => none

/-- Reads a node that is nested at most as deep as the fuel allows. -/
def read? : Nat → Json → Option WorkflowNode
  | 0, _ => none
  | fuel + 1, j =>
    match Json.tagged? "type" j with
    | some (kind, j) => readKind? (Json.list? (read? fuel)) kind j
    | none => none

/-- Reads a node. -/
def ofJson? (j : Json) : Option WorkflowNode := read? j.depth j

end WorkflowNode

end FlowAnalysis
