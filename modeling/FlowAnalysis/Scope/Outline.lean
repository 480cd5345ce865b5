import FlowAnalysis.Location
import FlowAnalysis.Script.Expression

/-!
# Outlines

The outline of a script is what is left of it when only scopes and bindings are kept: regions of
lines, one inside the other, and the names bound in them, in order.  Declarations of types bind
nothing.
-/

namespace FlowAnalysis

/-- The kinds of scope. -/
inductive ScopeKind
  | global
  | module
  | classBody
  | function
  | block
  | loop
  | handler
  deriving DecidableEq, Repr, Inhabited

namespace ScopeKind

/-- The word for a kind. -/
def name : ScopeKind → String
  | global => "global"
  | module => "module"
  | classBody => "class"
  | function => "function"
  | block => "block"
  | loop => "for"
  | handler => "catch"

/-- Whether a `var` declared inside belongs to a scope of this kind. -/
def takesVar : ScopeKind → Bool
  | function | module | global => true
  | _ => false

end ScopeKind

/-- The ways to bind a name. -/
inductive BindingKind
  | const
  | lexical
  | var
  | parameter
  | function
  | className
  | imported
  | caught
  deriving DecidableEq, Repr, Inhabited

namespace BindingKind

/-- The word for a kind. -/
def name : BindingKind → String
  | const => "const"
  | lexical => "let"
  | var => "var"
  | parameter => "parameter"
  | function => "function"
  | className => "class"
  | imported => "import"
  | caught => "catchparam"

/-- The kind that the word of a declaration stands for. -/
def ofWord : Option String → BindingKind
  | some "const" => const
  | some "let" => lexical
  | _ => var

end BindingKind

/-- A part of an outline. -/
inductive Outline
  /-- A name bound in the region around it. -/
  | binding (kind : BindingKind) (name : String) (location : Location)
  /-- A scope from its first to its last line. -/
  | region (kind : ScopeKind) (first last : Nat) (parts : List Outline)
  deriving Repr, Inhabited

namespace Outline

open Script

/-- A name bound by a node. -/
def bind (kind : BindingKind) (n : Node) : Outline := .binding kind n.text n.location

/-- The names that a pattern binds. -/
def bindAll (kind : BindingKind) (pattern : Node) : List Outline :=
  pattern.boundNames.map (bind kind)

/-- The region that a node covers. -/
def around (kind : ScopeKind) (n : Node) (parts : List Outline) : Outline :=
  .region kind (n.start.row + 1) (n.stop.row + 1) parts

/-- The names that an import binds. -/
def ofImport (n : Node) : List Outline :=
  (n.parts.filter fun c => c.kind == .importClause).flatMap fun clause =>
    clause.parts.flatMap fun part =>
      match part.kind with
      | .identifier => [bind .imported part]
      | .namespaceImport =>
        (part.parts.filter fun c => c.kind == .identifier).map (bind .imported)
      | .namedImports =>
        (part.parts.filter fun c => c.kind == .importSpecifier).filterMap fun s =>
          ((s.child? .newName).or (s.child? .name)).map (bind .imported)
      | _ => []

mutual

/-- The outline of a node. -/
def ofNode (n : Node) : List Outline :=
  match n.kind with
  | .lexicalDeclaration | .variableDeclaration =>
    ofDeclarators (.ofWord ((n.child? .kind).map (·.text))) n.parts
  | .functionDeclaration | .generatorFunctionDeclaration =>
    ((n.child? .name).map (bind .function)).toList ++ [ofFunction n]
  | .functionExpression | .generatorFunction | .arrowFunction | .methodDefinition => [ofFunction n]
  | .classDeclaration | .abstractClassDeclaration =>
    ((n.child? .name).map (bind .className)).toList ++ [ofClass n]
  | .classExpression => [ofClass n]
  | .statementBlock | .switchBody => [around .block n (ofNodes n.parts)]
  | .forStatement =>
    [around .loop n (ofChild n .initializer ++ ofChild n .condition ++ ofChild n .increment
      ++ ofChild n .body)]
  | .forInStatement =>
    let left :=
      match n.child? .kind, n.child? .left with
      | some word, some left => bindAll (.ofWord (some word.text)) left
      | none, some _ => ofChild n .left
      | _, none => []
    [around .loop n (left ++ ofChild n .right ++ ofChild n .body)]
  | .catchClause =>
    let parameter := ((n.child? .parameter).map (bindAll .caught)).getD []
    [around .handler n (parameter ++ ofChild n .body)]
  | .importStatement => ofImport n
  | .interfaceDeclaration | .typeAliasDeclaration | .comment => []
  | _ => ofNodes n.parts
termination_by 3 * n.size + 1
decreasing_by
  all_goals have := Node.sizeAll_parts_lt n
  all_goals omega

/-- The outline of nodes one after the other. -/
def ofNodes : List Node → List Outline
  | [] => []
  | n :: ns => ofNode n ++ ofNodes ns
termination_by ns => 3 * Node.sizeAll ns + 2
decreasing_by
  all_goals have := Node.size_pos n
  all_goals rw [Node.sizeAll]; omega

/-- The outline of the child in a role. -/
def ofChild (n : Node) (r : Role) : List Outline :=
  match _h : n.child? r with
  | some c => ofNode c
  | none => []
termination_by 3 * n.size
decreasing_by
  have := Node.size_lt_of_child? ‹_›
  omega

/-- The scope of a function: its parameters and its body, which has no scope of its own. -/
def ofFunction (n : Node) : Outline :=
  let single := ((n.child? .parameter).map (bindAll .parameter)).getD []
  let list :=
    match _h : n.child? .parameters with
    | some ps => ofParameters ps.parts
    | none => []
  let body :=
    match _h : n.child? .body with
    | some b => if b.kind == .statementBlock then ofNodes b.parts else ofNode b
    | none => []
  around .function n (single ++ list ++ body)
termination_by 3 * n.size
decreasing_by
  · have := Nat.lt_trans (Node.sizeAll_parts_lt ps) (Node.size_lt_of_child? ‹_›)
    omega
  · have := Nat.lt_trans (Node.sizeAll_parts_lt b) (Node.size_lt_of_child? ‹_›)
    omega
  · have := Node.size_lt_of_child? ‹_›
    omega

/-- The bindings of parameters, each before what its default holds. -/
def ofParameters : List Node → List Outline
  | [] => []
  | p :: ps =>
    bindAll .parameter ((p.child? .pattern).getD p) ++ ofChild p .value ++ ofParameters ps
termination_by ps => 3 * Node.sizeAll ps + 2
decreasing_by
  all_goals have := Node.size_pos p
  all_goals rw [Node.sizeAll]; omega

/-- The bindings of declared variables, each before what its value holds. -/
def ofDeclarators (kind : BindingKind) : List Node → List Outline
  | [] => []
  | d :: ds =>
    let own :=
      if d.kind == .variableDeclarator then
        match _h : d.child? .name with
        | some name =>
          bindAll kind name ++ (if name.kind == .identifier then [] else ofDefaults name.parts)
            ++ ofChild d .value
        | none => ofChild d .value
      else []
    own ++ ofDeclarators kind ds
termination_by ds => 3 * Node.sizeAll ds + 2
decreasing_by
  all_goals have := Node.size_pos d
  · have := Nat.lt_trans (Node.sizeAll_parts_lt name) (Node.size_lt_of_child? _h)
    rw [Node.sizeAll]; omega
  all_goals rw [Node.sizeAll]; omega

/-- What the defaults inside a pattern hold. -/
def ofDefaults : List Node → List Outline
  | [] => []
  | c :: cs =>
    let own :=
      match c.kind with
      | .objectAssignmentPattern | .assignmentPattern => ofChild c .right
      | .objectPattern | .arrayPattern | .pairPattern => ofDefaults c.parts
      | _ => []
    own ++ ofDefaults cs
termination_by cs => 3 * Node.sizeAll cs + 2
decreasing_by
  all_goals have := Node.sizeAll_parts_lt c
  all_goals rw [Node.sizeAll]; omega

/-- The scope of a class. -/
def ofClass (n : Node) : Outline :=
  let members :=
    match _h : n.child? .body with
    | some b => ofMembers b.parts
    | none => []
  around .classBody n members
termination_by 3 * n.size
decreasing_by
  have := Nat.lt_trans (Node.sizeAll_parts_lt b) (Node.size_lt_of_child? ‹_›)
  omega

/-- What the members of a class hold. -/
def ofMembers : List Node → List Outline
  | [] => []
  | m :: ms =>
    let own :=
      match m.kind with
      | .methodDefinition => [ofFunction m]
      | .publicFieldDefinition => ofChild m .value
      | _ => ofNode m
    own ++ ofMembers ms
termination_by ms => 3 * Node.sizeAll ms + 2
decreasing_by
  all_goals have := Node.size_pos m
  all_goals rw [Node.sizeAll]; omega

end

end Outline

end FlowAnalysis
