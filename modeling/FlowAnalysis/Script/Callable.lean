import FlowAnalysis.Analysis.Basic
import FlowAnalysis.Graph
import FlowAnalysis.Script.FlowClass

/-!
# Callables and calls

The callables of a script are the functions at its top and the methods of its flow class, one per
name: of functions the first counts, and a method takes the place of a function.  A function is
called by its name, a method through `this`.
-/

namespace FlowAnalysis.Script

/-- A function that a script can call. -/
structure Callable where
  name : String
  /-- Whether it is called through `this`. -/
  isMethod : Bool
  /-- What declares it. -/
  definition : Node
  function : Node
  body : Option Node
  isAsync : Bool
  parameters : List String

namespace Callable

/-- The callable that a function bound to a name is. -/
def ofFunction (name : String) (isMethod : Bool) (definition function : Node) : Callable :=
  ⟨name, isMethod, definition, function, function.child? .body, function.isAsync,
    function.parameterNames⟩

/-- The function that a variable is bound to. -/
def ofDeclarator? (d : Node) : Option Callable := do
  if d.kind == .variableDeclarator then
    let name ← d.child? .name
    if name.kind == .identifier then
      let value := (← d.child? .value).stripParens
      if value.isFunctionValue then return ofFunction name.text false d value else none
    else none
  else none

/-- The functions that a declaration at the top of a script binds. -/
def ofDeclaration (d : Node) : List Callable :=
  match d.kind with
  | .functionDeclaration | .generatorFunctionDeclaration =>
    ((d.child? .name).map fun name => ofFunction name.text false d d).toList
  | .lexicalDeclaration | .variableDeclaration => d.parts.filterMap ofDeclarator?
  | _ => []

/-- A method as a callable. -/
def ofMethod (m : Method) : Callable :=
  ⟨m.name, true, m.member, m.function, m.body, m.isAsync, m.function.parameterNames⟩

/-- The span of the body. -/
def bodyLocation? (c : Callable) : Option Location := c.body.map Node.location

/-- The calls in the body, each with the name called and whether it goes through `this`. -/
def calls (c : Callable) : List (Node × String × Bool) :=
  match c.body with
  | none => []
  | some body =>
    (body.descendants.filter fun n => n.kind == .callExpression).filterMap fun n =>
      n.callTarget?.map fun t => (n, t)

end Callable

/-- The callables of a script by name. -/
structure CallTable where
  callables : ByName Callable

namespace CallTable

/-- The table with a function, unless its name is taken. -/
def addFunction (t : ByName Callable) (c : Callable) : ByName Callable :=
  if t.contains c.name then t else t.insert c.name c

/-- The callables of a script and its flow class. -/
def build (root : Node) (flow : Option FlowClass) : CallTable :=
  let declarations := root.parts.filterMap fun s => s.declared?.map Prod.fst
  let functions := (declarations.flatMap Callable.ofDeclaration).foldl addFunction .empty
  let methods := ((flow.map (·.methods)).getD []).map Callable.ofMethod
  ⟨methods.foldl (fun t c => t.insert c.name c) functions⟩

/-- The callable of a name. -/
def get? (t : CallTable) (name : String) : Option Callable := t.callables.get? name

/-- The callable that a name stands for in a call, through `this` or not. -/
def target? (t : CallTable) (name : String) (isThis : Bool) : Option Callable :=
  (t.get? name).filter fun c => c.isMethod == isThis

/-- The callable that a call calls. -/
def resolve? (t : CallTable) (call : Node) : Option Callable :=
  call.callTarget?.bind fun (name, isThis) => t.target? name isThis

/-- The names of the callables that a callable calls. -/
def callees (t : CallTable) (c : Callable) : List String :=
  c.calls.filterMap fun (_, name, isThis) => (t.target? name isThis).map (·.name)

/-- Which callable calls which, each once, in the order of the first calls. -/
def graph (t : CallTable) : Graph :=
  t.callables.entries.map fun (name, c) => (name, Graph.fresh [] (t.callees c))

/-- The names of the callables that a callable leads to, through one or more calls. -/
def reachable (t : CallTable) (name : String) : List String := t.graph.reachable name

/-- Whether a callable, or one that it leads to, constructs a bubble. -/
def leadsToBubble (t : CallTable) (bubbles : ById Bubble) (name : String) : Bool :=
  (name :: t.reachable name).any fun n =>
    match (t.get? n).bind (·.bodyLocation?) with
    | some body => bubbles.values.any fun b => body.encloses b.location
    | none => false

/-- The lines of all calls through `this` of a name, ascending and each once. -/
def invocationLines (t : CallTable) (name : String) : List Nat :=
  let lines := t.callables.values.flatMap fun c =>
    c.calls.filterMap fun (call, called, isThis) =>
      if isThis && called == name then some (call.start.row + 1) else none
  (lines.mergeSort (· ≤ ·)).eraseReps

/-- Where the methods other than the entry point are defined and called. -/
def methodSites (t : CallTable) : ByName MethodSite :=
  .ofList ((t.callables.values.filter fun c => c.isMethod && c.name != "handle").map fun c =>
    (c.name,
      { definition := c.definition.location
        body := c.bodyLocation?.getD c.function.location
        invocationLines := t.invocationLines c.name
        isAsync := c.isAsync
        parameters := c.parameters }))

end CallTable

end FlowAnalysis.Script
