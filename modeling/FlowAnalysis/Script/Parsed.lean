import FlowAnalysis.Scope.Tree
import FlowAnalysis.Script.Grammar

/-!
# Scripts with their scopes
-/

namespace FlowAnalysis

/-- A script that follows the grammar: its text, its tree and its scopes. -/
structure ParsedScript where
  source : String
  root : Script.Node
  scopes : ScopeTree

namespace ParsedScript

/-- Reads a script and finds its scopes; there is none when the text breaks the grammar. -/
def parse? (source : String) : Option ParsedScript :=
  (Script.parse? source).map fun s => ⟨source, s.root, ScopeTree.build source s.root⟩

/-- A short description: the size of the text and the numbers of scopes and variables. -/
def summary (p : ParsedScript) : String :=
  s!"ParsedSource \x7b bytes: {p.source.utf8ByteSize}, scopes: {p.scopes.scopes.length}, " ++
    s!"variables: {p.scopes.bindings.length} \x7d"

end ParsedScript

end FlowAnalysis
