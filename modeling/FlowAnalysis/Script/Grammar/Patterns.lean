import FlowAnalysis.Script.Grammar.Rules

/-!
# Patterns

What can be bound or assigned: names, properties, and object and array patterns with defaults.
-/

namespace FlowAnalysis.Script.Grammar

open Reader

/-- Items between brackets and commas, any of which may be left out. -/
def slots (opening closing : String) (item : Pieces) : Pieces :=
  seq [sym opening, opt item, star (seq [sym ",", opt item]), sym closing]

/-- A target with a default. -/
def defaulted (r : Rules) (target : Reader Node) : Reader Node := do
  let left ← target
  (do
    let ns ← seq [sym "=", field .right (r.expression .inner)]
    return .branch .assignmentPattern none (left.withRole .left :: ns))
    <|> pure left

/-- An array pattern. -/
def arrayPattern (r : Rules) : Reader Node :=
  node .arrayPattern (slots "[" "]" (sub (defaulted r r.pattern)))

/-- One member of an object pattern. -/
def objectPatternMember (r : Rules) (destructuring : Reader Node) : Reader Node :=
  oneOf [
    node .restPattern (seq [sym "...", sub r.pattern]),
    node .pairPattern
      (seq [field .key (propertyName r), sym ":", field .value (defaulted r r.pattern)]),
    (do
      let left ← oneOf [freeName .shorthandPattern, destructuring]
      (do
        let ns ← seq [sym "=", field .right (r.expression .inner)]
        return .branch .objectAssignmentPattern none (left.withRole .left :: ns))
        <|> (if left.kind == .shorthandPattern then pure left else failure))]

/-- An object pattern. -/
def objectPattern (r : Rules) : Reader Node :=
  node .objectPattern (slots "\x7b" "\x7d" (sub (objectPatternMember r r.pattern)))

/-- An object or an array pattern. -/
def destructuring (r : Rules) : Reader Node := oneOf [objectPattern r, arrayPattern r]

/-- What a declaration binds.  Where only a name can stand, every word is one that cannot mean
something else there. -/
def binding (r : Rules) (barred : List String) : Reader Node :=
  oneOf [boundName barred, destructuring r]

/-- The kinds of expression that can be assigned to. -/
def isTarget (k : Kind) : Bool :=
  k == .identifier || k == .undefinedValue || k == .memberExpression || k == .subscriptExpression
    || k == .nonNullExpression

/-- A name, or a property reached from one. -/
def target (r : Rules) : Reader Node := do
  let first ← oneOf [token .thisValue (Lexeme.keyword "this"),
    token .superValue (Lexeme.keyword "super"), identifier]
  let n ← r.accesses .inner first
  if isTarget n.kind then return n else failure

/-- Anything that can be bound or assigned, also the rest of a list. -/
def pattern (r : Rules) : Reader Node :=
  oneOf [destructuring r,
    node .restPattern (seq [sym "...", sub (oneOf [destructuring r, target r])]),
    target r]

/-- What a parameter binds. -/
def parameterTarget (r : Rules) : Reader Node :=
  oneOf [token .thisValue (Lexeme.keyword "this"), identifier, destructuring r,
    node .restPattern (seq [sym "...", sub (binding r reservedWords)])]

end FlowAnalysis.Script.Grammar
