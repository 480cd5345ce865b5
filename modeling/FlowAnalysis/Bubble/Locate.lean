import FlowAnalysis.Bubble.Parameters
import FlowAnalysis.Options
import FlowAnalysis.Registry
import FlowAnalysis.Script.Comment
import FlowAnalysis.Script.Imports
import FlowAnalysis.Script.Parsed

/-!
# Locating bubbles

A bubble is recorded where a registered class is constructed as the value of a declaration, as a
statement, as a result, as the whole body of an arrow function, as the right side of an assignment,
or as a task that runs in parallel.  A bubble that is the value of a named variable has the id of
the variable; all others are counted down from -1 in the order of the text.
-/

namespace FlowAnalysis

open Script

/-- The registered class behind a name of the script, with its descriptor: an import from the bubble
package is followed first. -/
def Registry.resolve? (registry : Registry) (imports : ByName String) (name : String) :
    Option (String × Descriptor) :=
  let followed := do
    let exported ← imports.get? name
    let d ← registry.forClass? exported
    return (exported, d)
  followed.or ((registry.forClass? name).map fun d => (name, d))

namespace Bubble

/-- How a construction is bound. -/
inductive Binding
  /-- To a variable, by the node of its name. -/
  | named (name : Node)
  /-- To none, with the text of an assigned target as a label. -/
  | anonymous (label : Option String)

/-- A construction in a place where bubbles are recorded. -/
structure Site where
  cursor : Cursor
  binding : Binding

namespace Site

/-- A site without a label. -/
def plain (c : Cursor) : Site := ⟨c, .anonymous none⟩

/-- The places at a node where a construction is recorded. -/
def at_ (c : Cursor) : List Site :=
  match c.node.kind with
  | .variableDeclarator =>
    match c.node.child? .name, c.child? .value with
    | some name, some value =>
      [⟨value, if name.kind == .identifier then .named name else .anonymous none⟩]
    | _, _ => []
  | .expressionStatement | .returnStatement => (c.part?.map plain).toList
  | .arrowFunction =>
    match c.child? .body with
    | some body => if body.node.kind == .statementBlock then [] else [plain body]
    | none => []
  | .assignmentExpression =>
    match c.node.child? .left, c.child? .right with
    | some left, some right => [⟨right, .anonymous (some left.text)⟩]
    | _, _ => []
  | .callExpression =>
    if c.node.parallelArgument?.isSome then
      match (c.child? .arguments).bind (·.part?) with
      | some array => if array.node.kind == .array then array.parts.map plain else []
      | none => []
    else []
  | _ => []

end Site

/-- A class found at a site. -/
structure Found where
  site : Site
  construction : Construction
  className : String
  descriptor : Descriptor

namespace Found

/-- What a site constructs, when it is registered. -/
def of? (registry : Registry) (imports : ByName String) (site : Site) : Option Found := do
  let construction ← Construction.of? site.cursor.node
  let name ← construction.className?
  let (className, descriptor) ← registry.resolve? imports name
  return ⟨site, construction, className, descriptor⟩

/-- Whether the construction is bound to no variable. -/
def isAnonymous (f : Found) : Bool :=
  match f.site.binding with
  | .named _ => false
  | .anonymous _ => true

/-- The id of the variable that a name node binds. -/
def variableId? (scopes : ScopeTree) (name : Node) : Option Int :=
  ((scopes.variableAt? name.text name.location).map (·.id)).or
    (scopes.resolve? name.text (name.start.row + 1))

/-- The id and the name of the bubble, given how many anonymous ones come before; there is none when
a name has no binding. -/
def identity? (f : Found) (scopes : ScopeTree) (earlier : Nat) : Option (Int × String) :=
  match f.site.binding with
  | .named name => (variableId? scopes name).map fun id => (id, name.text)
  | .anonymous label =>
    some (-(earlier : Int) - 1, label.getD s!"_anonymous_{f.className}_{earlier + 1}")

/-- The bubble with its id and its name. -/
def toBubble (f : Found) (scopes : ScopeTree) (id : Int) (name : String) : Bubble :=
  let node := f.site.cursor.node
  { variableId := id
    variableName := name
    bubbleName := f.descriptor.name
    className := f.className
    parameters := (Parameter.ofArguments f.construction.arguments?).map
      (Parameter.resolved scopes (node.start.row + 1))
    hasAwait := f.construction.hasAwait
    hasActionCall := f.construction.hasActionCall
    nodeType := f.descriptor.nodeType
    location := node.location
    description := f.site.cursor.comment? }

end Found

/-- A bubble whose variable has no binding, with its name and its line. -/
structure Unbound where
  name : String
  line : Nat
  deriving DecidableEq, Repr, Inhabited

/-- Every registered construction of a script, in order. -/
def found (p : ParsedScript) (registry : Registry) (options : Options) : List Found :=
  let imports := p.root.imports options.bubblePackage
  ((Cursor.everywhere p.root).flatMap Site.at_).filterMap (Found.of? registry imports)

/-- Records constructions one after the other; `earlier` counts the anonymous ones before. -/
def recordAll (scopes : ScopeTree) :
    Nat → ById Bubble → List Found → Except Unbound (ById Bubble)
  | _, t, [] => .ok t
  | earlier, t, f :: fs =>
    match f.identity? scopes earlier with
    | some (id, name) =>
      recordAll scopes (if f.isAnonymous then earlier + 1 else earlier)
        (t.insert id (f.toBubble scopes id name)) fs
    | none =>
      match f.site.binding with
      | .named name => .error ⟨name.text, f.site.cursor.node.start.row + 1⟩
      | .anonymous _ => recordAll scopes earlier t fs

/-- The bubbles of a script by id. -/
def locate (p : ParsedScript) (registry : Registry) (options : Options) :
    Except Unbound (ById Bubble) :=
  recordAll p.scopes 0 .empty (found p registry options)

end Bubble

end FlowAnalysis
