import FlowAnalysis.Schema.Convert
import FlowAnalysis.Schema.Literal

/-!
# The schema of a flow's input

The input of a flow is the first parameter of its entry point.  Its schema is that of the
parameter's type, and defaults come from the pattern that takes the input apart, in the parameter
itself or in a declaration at the top of the body.
-/

namespace FlowAnalysis

open Script

namespace Schema

/-- The property list with a default for a name. -/
def setDefault (name : String) (value : Json) :
    List (String × Schema) → List (String × Schema)
  | [] => []
  | (k, s) :: ps =>
    if k == name then (k, s.withDefault value) :: ps else (k, s) :: setDefault name value ps

mutual

/-- The schema with a default for a property, its own or that of a member of an intersection. -/
def applyDefault (name : String) (value : Json) : Schema → Schema
  | .mk (.object ps rs) d e => .mk (.object (setDefault name value ps) rs) d e
  | .mk (.allOf ms) d e => .mk (.allOf (applyToFirst name value ms)) d e
  | s => s

/-- The members of an intersection with a default in the first one that has the property. -/
def applyToFirst (name : String) (value : Json) : List Schema → List Schema
  | [] => []
  | m :: ms =>
    if (m.property? name).isSome then applyDefault name value m :: ms
    else m :: applyToFirst name value ms

end

/-- The property that a member of a pattern takes and the expression for its default. -/
def memberDefault? (member : Node) : Option (Node × Node) :=
  match member.kind with
  | .objectAssignmentPattern => do
    return (← member.child? .left, ← member.child? .right)
  | .pairPattern => do
    let value ← member.child? .value
    if value.kind == .assignmentPattern then
      return (← member.child? .key, ← value.child? .right)
    else none
  | _ => none

/-- The defaults in an object pattern that are literals. -/
def patternDefaults (pattern : Node) : List (String × Json) :=
  pattern.parts.filterMap fun member => do
    let (key, default) ← memberDefault? member
    let value ← default.literal?
    return (Text.unquote key.text, value)

/-- The defaults of a declarator that takes the parameter apart. -/
def declaratorDefaults (parameter : String) (declarator : Node) : List (String × Json) :=
  match declarator.child? .name, declarator.child? .value with
  | some pattern, some value =>
    if pattern.kind == .objectPattern && value.stripParens.text == parameter then
      patternDefaults pattern
    else []
  | _, _ => []

/-- The defaults of the declarations at the top of a body that take the parameter apart. -/
def bodyDefaults (body : Node) (parameter : String) : List (String × Json) :=
  (body.parts.filter fun s => s.kind == .lexicalDeclaration ||
    s.kind == .variableDeclaration).flatMap
    fun s => s.parts.flatMap (declaratorDefaults parameter)

/-- The defaults for the input of a method whose first parameter is given. -/
def inputDefaults (method : Method) (parameter : Node) : List (String × Json) :=
  match parameter.child? .pattern with
  | none => []
  | some pattern =>
    match pattern.kind, method.body with
    | .objectPattern, _ => patternDefaults pattern
    | .identifier, some body => bodyDefaults body pattern.text
    | _, _ => []

/-- The schema of the input of a script's flow. -/
def infer? (p : ParsedScript) (options : Options) : Option Schema := do
  let flow ← (FlowClass.all options.flowBaseClass p.root).head?
  let handle ← flow.handle?
  let parameter ← handle.parameters.head?
  let type ← memberType? parameter
  let schema := convert ⟨.ofRoot p.root, options.triggerRegistryType⟩ [] type
  return (inputDefaults handle parameter).foldl (fun s d => s.applyDefault d.1 d.2) schema

end Schema

end FlowAnalysis
