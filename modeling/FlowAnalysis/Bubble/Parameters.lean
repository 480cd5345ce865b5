import FlowAnalysis.Bubble.Basic
import FlowAnalysis.Number.Literal
import FlowAnalysis.Scope.Tree
import FlowAnalysis.Text.Blank
import FlowAnalysis.Text.Letter
import FlowAnalysis.Text.Quoted

/-!
# The parameters of a constructor

An object as first argument gives one parameter per property; any other first argument is a
parameter itself.  Literals are kept as values, everything else as source text.
-/

namespace FlowAnalysis

open Script

namespace Parameter

/-- The value of a number as written: a whole number, a floating-point number, or the text
itself when it is neither. -/
def numberValue (text : String) : Json :=
  let digits := String.ofList (text.toList.filter (· != '_'))
  match Number.integer? digits with
  | some n => .int n
  | none =>
    match Number.float? digits with
    | some x => .float x
    | none => .str text

/-- The name at the start of a reference. -/
def baseName (text : String) : String :=
  String.ofList (text.toList.takeWhile fun c => Text.isAlphanumeric c || c == '_' || c == '$')

/-- Whether a reference reads the environment of the process. -/
def isEnvironment (text : String) : Bool :=
  let compact := text.toList.filter fun c => !Text.isBlank c
  "process.env".toList.isPrefixOf compact || "process?.env".toList.isPrefixOf compact

/-- The type and the value of an expression. -/
def classify (value : Node) : ParameterType × Json :=
  let text := value.text
  match ExpressionShape.of value with
  | .member | .subscript =>
    (if isEnvironment text then .env else .reference, .str text)
  | .identifier => (.reference, .str text)
  | .string => (.string, .str (Text.unquote text))
  | .template => (.string, .str (if value.hasSubstitution then text else Text.unquote text))
  | .number => (.number, numberValue text)
  | .boolean => (.boolean, .bool (text == "true"))
  | .array => (.array, .str text)
  | .object => (.object, .str text)
  | .other => (.expression, .str text)

/-- The parameter that an expression makes. -/
def ofExpression (name : String) (value : Node) (source : ParameterSource) : Parameter :=
  let (type, json) := classify value
  ⟨name, json, type, none, value.location, source⟩

/-- The name of a property. -/
def keyName (key : Node) : String :=
  if key.kind == .string then Text.unquote key.text else key.text

/-- The parameter that a member of an object makes. -/
def ofMember? (member : Node) : Option Parameter :=
  match member.kind with
  | .pair => do
    let key ← member.child? .key
    let value ← member.child? .value
    return ofExpression (keyName key) value .objectProperty
  | .shorthandProperty =>
    some ⟨member.text, .str member.text, .reference, none, member.location, .objectProperty⟩
  | .spreadElement => do
    let argument ← member.part?
    return ofExpression argument.text argument .spread
  | .methodDefinition => do
    let name ← member.child? .name
    return ⟨name.text, .str member.text, .unknown, none, member.location, .objectProperty⟩
  | _ => none

/-- The parameters in the arguments of a constructor. -/
def ofArguments (arguments : Option Node) : List Parameter :=
  match arguments.bind (·.part?) with
  | none => []
  | some first =>
    if first.kind == .object then first.parts.filterMap ofMember?
    else
      [ofExpression (if first.kind == .identifier then first.text else "arg0") first .firstArg]

/-- The parameter with the variable that its value refers to at a line. -/
def resolved (scopes : ScopeTree) (line : Nat) (p : Parameter) : Parameter :=
  match p.type, p.value with
  | .reference, .str text =>
    let base := baseName text
    if base.isEmpty || base == "this" then p
    else { p with variableId := scopes.resolve? base line }
  | _, _ => p

end Parameter

end FlowAnalysis
