import FlowAnalysis.Dependency.Node
import FlowAnalysis.Location

/-!
# Bubbles

A bubble is one construction of a registered class in a script.  A bubble bound to a variable has
the id of that variable; every other one has a negative id.
-/

namespace FlowAnalysis

/-- The shape of the value of a parameter. -/
inductive ParameterType
  | string
  | number
  | boolean
  | object
  | array
  | env
  | reference
  | expression
  | unknown
  deriving DecidableEq, Repr, Inhabited

namespace ParameterType

/-- The word for a type. -/
def name : ParameterType → String
  | string => "string"
  | number => "number"
  | boolean => "boolean"
  | object => "object"
  | array => "array"
  | env => "env"
  | reference => "variable"
  | expression => "expression"
  | unknown => "unknown"

/-- The type that a word stands for. -/
def ofName? : String → Option ParameterType
  | "string" => some string
  | "number" => some number
  | "boolean" => some boolean
  | "object" => some object
  | "array" => some array
  | "env" => some env
  | "variable" => some reference
  | "expression" => some expression
  | "unknown" => some unknown
  | _ => none

end ParameterType

/-- How a parameter reaches the constructor. -/
inductive ParameterSource
  /-- As a property of an object. -/
  | objectProperty
  /-- As the first argument itself. -/
  | firstArg
  /-- As an object spread into another. -/
  | spread
  deriving DecidableEq, Repr, Inhabited

namespace ParameterSource

/-- The word for a source. -/
def name : ParameterSource → String
  | objectProperty => "object-property"
  | firstArg => "first-arg"
  | spread => "spread"

/-- The source that a word stands for. -/
def ofName? : String → Option ParameterSource
  | "object-property" => some objectProperty
  | "first-arg" => some firstArg
  | "spread" => some spread
  | _ => none

end ParameterSource

/-- A parameter given to a constructor. -/
structure Parameter where
  name : String
  /-- The value of a literal, and the source text of anything else. -/
  value : Json
  type : ParameterType
  /-- The variable that the value refers to. -/
  variableId : Option Int := none
  location : Location
  source : ParameterSource
  deriving Repr, Inhabited

namespace Parameter

/-- The fields of a parameter. -/
def fields : List String := ["name", "value", "type", "variableId", "location", "source"]

/-- A parameter as JSON. -/
def toJson (p : Parameter) : Json :=
  .record [("name", some (.str p.name)), ("value", some p.value), ("type", some (.str p.type.name)),
    ("variableId", p.variableId.map .int), ("location", some p.location.toJson),
    ("source", some (.str p.source.name))]

/-- Reads a parameter. -/
def ofJson? (j : Json) : Option Parameter := do
  let r ← Json.Record.of? fields j
  let name ← r.required "name" Json.string?
  let value ← r.required "value" some
  let type ← r.required "type" (Json.choice? ParameterType.ofName?)
  let variableId ← r.optional "variableId" Json.id?
  let location ← r.required "location" Location.ofJson?
  let source ← r.required "source" (Json.choice? ParameterSource.ofName?)
  return ⟨name, value, type, variableId, location, source⟩

end Parameter

/-- One construction of a registered class. -/
structure Bubble where
  variableId : Int
  variableName : String
  bubbleName : String
  className : String
  parameters : List Parameter
  hasAwait : Bool
  hasActionCall : Bool
  nodeType : NodeType
  /-- The span of the whole expression, with `await` and the call of `action`. -/
  location : Location
  /-- The comment above the statement. -/
  description : Option String := none
  /-- The names of all bubbles it depends on. -/
  dependencies : Option (List String) := none
  /-- The tree of its dependencies. -/
  dependencyGraph : Option DependencyNode := none
  deriving Repr, Inhabited

namespace Bubble

/-- Whether a bubble is bound to no variable. -/
def isAnonymous (b : Bubble) : Bool := b.variableId < 0

/-- The first parameter of a name. -/
def parameter? (b : Bubble) (name : String) : Option Parameter :=
  b.parameters.find? fun p => p.name == name

/-- The fields of a bubble. -/
def fields : List String :=
  ["variableId", "variableName", "bubbleName", "className", "parameters", "hasAwait",
    "hasActionCall", "nodeType", "location", "description", "dependencies", "dependencyGraph"]

/-- A bubble as JSON. -/
def toJson (b : Bubble) : Json :=
  .record [("variableId", some (.int b.variableId)), ("variableName", some (.str b.variableName)),
    ("bubbleName", some (.str b.bubbleName)), ("className", some (.str b.className)),
    ("parameters", some (.ofList Parameter.toJson b.parameters)),
    ("hasAwait", some (.bool b.hasAwait)), ("hasActionCall", some (.bool b.hasActionCall)),
    ("nodeType", some b.nodeType.toJson), ("location", some b.location.toJson),
    ("description", b.description.map .str),
    ("dependencies", b.dependencies.map (.ofList .str)),
    ("dependencyGraph", b.dependencyGraph.map DependencyNode.toJson)]

/-- Reads a bubble. -/
def ofJson? (j : Json) : Option Bubble := do
  let r ← Json.Record.of? fields j
  let variableId ← r.required "variableId" Json.id?
  let variableName ← r.required "variableName" Json.string?
  let bubbleName ← r.required "bubbleName" Json.string?
  let className ← r.required "className" Json.string?
  let parameters ← r.required "parameters" (Json.list? Parameter.ofJson?)
  let hasAwait ← r.required "hasAwait" Json.bool?
  let hasActionCall ← r.required "hasActionCall" Json.bool?
  let nodeType ← r.required "nodeType" NodeType.ofJson?
  let location ← r.required "location" Location.ofJson?
  let description ← r.optional "description" Json.string?
  let dependencies ← r.optional "dependencies" (Json.list? Json.string?)
  let dependencyGraph ← r.optional "dependencyGraph" DependencyNode.ofJson?
  return ⟨variableId, variableName, bubbleName, className, parameters, hasAwait, hasActionCall,
    nodeType, location, description, dependencies, dependencyGraph⟩

end Bubble

end FlowAnalysis
