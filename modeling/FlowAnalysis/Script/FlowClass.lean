import FlowAnalysis.Script.Comment
import FlowAnalysis.Script.Expression
import FlowAnalysis.Script.Imports

/-!
# Flow classes

A flow is a class at the top of a script that extends the flow base class.  Its methods are the
methods it declares and the fields it fills with functions.
-/

namespace FlowAnalysis.Script

/-- A method of a class, or a field that holds a function. -/
structure Method where
  name : String
  /-- The whole declaration. -/
  member : Node
  /-- The function, which has the parameters and the body. -/
  function : Node
  body : Option Node
  isAsync : Bool
  /-- The comment above the declaration. -/
  comment : Option String

namespace Method

/-- The parameters. -/
def parameters (m : Method) : List Node := m.function.parameterNodes

/-- The type of the result as written. -/
def returnType? (m : Method) : Option String :=
  (m.function.child? .returnType).map fun n =>
    let text := Text.trimStart n.text
    Text.trim ((Text.after? ":" text).getD text)

/-- The method that a member of a class body declares, given the siblings before it. -/
def of? (member : Node) (before : List Node) : Option Method := do
  let name ← member.child? .name
  match member.kind with
  | .methodDefinition =>
    if name.text == "constructor" then none
    else
      return ⟨name.text, member, member, member.child? .body, member.isAsync,
        Comment.above member before⟩
  | .publicFieldDefinition =>
    let value := (← member.child? .value).stripParens
    if value.isFunctionValue then
      return ⟨name.text, member, value, value.child? .body, value.isAsync,
        Comment.above member before⟩
    else none
  | _ => none

end Method

/-- A class that extends the flow base class. -/
structure FlowClass where
  node : Node
  name : String
  exported : Bool
  /-- The first type argument of the base class. -/
  typeArgument : Option Node
  body : Node

namespace FlowClass

/-- The line on which the class starts. -/
def line (c : FlowClass) : Nat := c.node.start.row + 1

/-- The methods in order. -/
def methods (c : FlowClass) : List Method :=
  c.body.partsWithBefore.filterMap fun (m, before) => Method.of? m before

/-- The first method of a name. -/
def method? (c : FlowClass) (name : String) : Option Method :=
  c.methods.find? fun m => m.name == name

/-- The entry point of the flow. -/
def handle? (c : FlowClass) : Option Method := c.method? "handle"

/-- The first field of a name. -/
def field? (c : FlowClass) (name : String) : Option Node :=
  c.body.parts.find? fun m =>
    m.kind == .publicFieldDefinition && ((m.child? .name).map (·.text)) == some name

/-- The value of the first field of a name. -/
def fieldValue? (c : FlowClass) (name : String) : Option Node :=
  (c.field? name).bind (·.child? .value)

/-- The clause that says what a class extends. -/
def extendsClause? (class_ : Node) : Option Node := do
  let heritage ← class_.parts.find? fun c => c.kind == .classHeritage
  heritage.parts.find? fun c => c.kind == .extendsClause

/-- The flow class in a statement. -/
def of? (base : String) (statement : Node) : Option FlowClass := do
  let (class_, exported) ← statement.declared?
  if class_.kind == .classDeclaration || class_.kind == .abstractClassDeclaration then
    let name ← class_.child? .name
    let body ← class_.child? .body
    let clause ← extendsClause? class_
    let value ← clause.child? .value
    if value.text == base then
      return ⟨class_, name.text, exported, (clause.child? .typeArguments).bind (·.part?), body⟩
    else none
  else none

/-- The flow classes of a script, in order. -/
def all (base : String) (root : Node) : List FlowClass := root.parts.filterMap (of? base)

end FlowClass

end FlowAnalysis.Script
