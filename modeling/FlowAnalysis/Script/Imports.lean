import FlowAnalysis.Script.Node
import FlowAnalysis.Table.ByName
import FlowAnalysis.Text.Quoted
import FlowAnalysis.Text.Blank

/-!
# Imports

The classes that a script imports from a module, by the name under which the script knows them.
-/

namespace FlowAnalysis.Script

namespace Node

/-- The name under which an import is known and the name that the module exports. -/
def importedName? (specifier : Node) : Option (String × String) := do
  let name ← specifier.child? .name
  match specifier.child? .newName with
  | some newName => return (newName.text, name.text)
  | none => return (name.text, name.text)

/-- The names that a statement imports from a module. -/
def importsFrom (statement : Node) (module : String) : List (String × String) :=
  if statement.kind != .importStatement then []
  else
    match statement.child? .source with
    | some source =>
      if Text.dropEnd Text.isQuote (Text.dropStart Text.isQuote source.text) == module then
        (statement.descendants.filter fun n => n.kind == .importSpecifier).filterMap importedName?
      else []
    | none => []

/-- The exported names by the names under which a script knows them. -/
def imports (root : Node) (module : String) : ByName String :=
  .ofList (root.parts.flatMap fun s => s.importsFrom module)

/-- The declaration in a statement, exported or not, and whether it is exported. -/
def declared? (statement : Node) : Option (Node × Bool) :=
  if statement.kind == .exportStatement then
    (statement.child? .declaration).map fun d => (d, true)
  else some (statement, false)

end Node

end FlowAnalysis.Script
