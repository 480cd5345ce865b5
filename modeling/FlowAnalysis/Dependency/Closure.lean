import FlowAnalysis.Bubble.Basic
import FlowAnalysis.Graph
import FlowAnalysis.Registry
import FlowAnalysis.Text.Pattern
import FlowAnalysis.Text.Quoted

/-!
# What a bubble depends on

A bubble depends on the bubbles that its descriptor names, on theirs, and so on.  An agent also
depends on the registered tools in its parameter `tools`.
-/

namespace FlowAnalysis

namespace Bubble

/-- A quoted text without quotes in it, as group 1. -/
def quotedPattern : Text.Pattern :=
  .all [.one Text.isQuote, .group 1 (.run true 1 fun c => !Text.isQuote c), .one Text.isQuote]

/-- A tool that is given by an object with a name, as group 1. -/
def toolNamePattern : Text.Pattern :=
  .all [.text "name", .blanks, .text ":", .blanks, quotedPattern]

/-- The texts of group 1 of every match. -/
def matched (pattern : Text.Pattern) (s : String) : List String :=
  (pattern.all? s).filterMap fun groups => groups.lookup 1

/-- The tools written in a list: those given by objects with a name if there are any,
otherwise every quoted text. -/
def toolNames (s : String) : List String :=
  let named := matched toolNamePattern s
  if named.isEmpty then matched quotedPattern s else named

/-- The registered tools given to a bubble, each once, in order. -/
def configuredTools (b : Bubble) (registry : Registry) : List String :=
  match (b.parameter? "tools").bind fun p => p.value.text? with
  | none => []
  | some text =>
    (toolNames text).foldl
      (fun names n =>
        if (registry.get? n).isSome && !names.contains n then names ++ [n] else names)
      []

/-- The names that a descriptor leads to in one step, as seen from a bubble: for its own descriptor,
when it is an agent, its configured tools too. -/
def successors (b : Bubble) (registry : Registry) (d : Descriptor) : List String :=
  if d.name == b.bubbleName && d.isAgent then d.directNames ++ b.configuredTools registry
  else d.directNames

/-- Which registered name leads to which, as seen from a bubble. -/
def dependencyRelation (b : Bubble) (registry : Registry) : Graph :=
  registry.descriptors.map fun d => (d.name, b.successors registry d)

/-- The names of all bubbles that a bubble depends on, nearest first,
each once and never its own. -/
def flatDependencies (b : Bubble) (registry : Registry) : List String :=
  (b.dependencyRelation registry).closure b.bubbleName

end Bubble

end FlowAnalysis
