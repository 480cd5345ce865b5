import FlowAnalysis.Script.Node

/-!
# Expressions

What an analysis asks of an expression: what it is behind parentheses and `await`, whether it
constructs a class, which names a pattern binds, and what a call calls.
-/

namespace FlowAnalysis.Script

namespace Node

theorem size_lt_of_part? {n c : Node} (h : n.part? = some c) : c.size < n.size :=
  size_lt_of_mem (mem_children_of_part? h)

theorem size_lt_of_child? {n c : Node} {r : Role} (h : n.child? r = some c) : c.size < n.size :=
  size_lt_of_mem (mem_children_of_child? h)

theorem size_pos (n : Node) : 0 < n.size := by
  cases n <;> simp [size]

theorem sizeAll_filter_le (p : Node → Bool) (ns : List Node) :
    sizeAll (ns.filter p) ≤ sizeAll ns := by
  induction ns with
  | nil => simp
  | cons n ns ih =>
    rw [List.filter_cons]
    split <;> simp only [sizeAll] <;> omega

/-- The parts of a node are together smaller than the node. -/
theorem sizeAll_parts_lt (n : Node) : sizeAll n.parts < n.size := by
  cases n with
  | token => simp [parts, children, sizeAll, size]
  | branch k r cs =>
    have := sizeAll_filter_le (fun c => c.isNamed && !c.isComment) cs
    simp only [parts, children, size]
    omega

/-! ### Parentheses and `await` -/

/-- The expression inside any parentheses. -/
def stripParens (n : Node) : Node :=
  if n.kind == .parenthesizedExpression then
    match _h : n.part? with
    | some inner => stripParens inner
    | none => n
  else n
termination_by n.size
decreasing_by exact size_lt_of_part? ‹_›

/-- Taking parentheses off makes no expression larger. -/
theorem size_stripParens_le (n : Node) : n.stripParens.size ≤ n.size := by
  rw [stripParens]
  split
  · split
    · next inner h =>
      have := size_lt_of_part? h
      have := size_stripParens_le inner
      omega
    · exact Nat.le_refl _
  · exact Nat.le_refl _
termination_by n.size
decreasing_by exact size_lt_of_part? ‹_›

/-- The expression inside any parentheses and behind any `await`. -/
def stripAwait (n : Node) : Node :=
  let m := n.stripParens
  if m.kind == .awaitExpression then
    match _h : m.part? with
    | some inner => stripAwait inner
    | none => m
  else m
termination_by n.size
decreasing_by exact Nat.lt_of_lt_of_le (size_lt_of_part? ‹_›) (size_stripParens_le n)

/-- Taking parentheses and `await` off makes no expression larger. -/
theorem size_stripAwait_le (n : Node) : n.stripAwait.size ≤ n.size := by
  have hp := size_stripParens_le n
  rw [stripAwait]
  split
  · split
    · next inner h =>
      have := size_lt_of_part? h
      have := size_stripAwait_le inner
      omega
    · exact hp
  · exact hp
termination_by n.size
decreasing_by exact Nat.lt_of_lt_of_le (size_lt_of_part? ‹_›) (size_stripParens_le n)

/-! ### Functions -/

/-- Whether a function carries the word `async`. -/
def isAsync (n : Node) : Bool := n.hasMark "async"

/-- The parameters of a function: nodes of its list, or its single bare name. -/
def parameterNodes (n : Node) : List Node :=
  match n.child? .parameter with
  | some single => [single]
  | none =>
    match n.child? .parameters with
    | some list => list.parts
    | none => []

/-- What a function's parameters bind, as written. -/
def parameterNames (n : Node) : List String :=
  match n.child? .parameter with
  | some single => [single.text]
  | none =>
    match n.child? .parameters with
    | some list => list.parts.map fun p => ((p.child? .pattern).getD p).text
    | none => []

/-- Whether a value is a function that can be called by the name it is bound to. -/
def isFunctionValue (n : Node) : Bool :=
  n.kind == .arrowFunction || n.kind == .functionExpression

/-! ### Patterns -/

/-- The names that a pattern binds, in order. -/
def boundNames (n : Node) : List Node :=
  match n.kind with
  | .identifier | .shorthandPattern => [n]
  | .pairPattern =>
    match _h : n.child? .value with
    | some value => boundNames value
    | none => []
  | .objectAssignmentPattern | .assignmentPattern =>
    match _h : n.child? .left with
    | some left => boundNames left
    | none => []
  | .objectPattern | .arrayPattern | .restPattern =>
    n.parts.attach.flatMap fun ⟨c, _⟩ => boundNames c
  | _ => []
termination_by n.size
decreasing_by
  · exact size_lt_of_child? ‹_›
  · exact size_lt_of_child? ‹_›
  · exact size_lt_of_mem (mem_children_of_mem_parts ‹_›)

/-! ### Calls -/

/-- The name that a call of `name(...)` or `this.name(...)` calls, and whether it is the second. -/
def callTarget? (call : Node) : Option (String × Bool) := do
  let function := (← call.child? .function).stripParens
  match function.kind with
  | .identifier => return (function.text, false)
  | .memberExpression =>
    let object ← function.child? .object
    if object.kind == .thisValue then
      let property ← function.child? .property
      return (property.text, true)
    else none
  | _ => none

/-- The first argument of `Promise.all(...)` or `Promise.allSettled(...)`, awaited or not. -/
def parallelArgument? (n : Node) : Option Node := do
  let call := n.stripAwait
  if call.kind == .callExpression then
    let function ← call.child? .function
    if function.text == "Promise.all" || function.text == "Promise.allSettled" then
      let arguments ← call.child? .arguments
      arguments.part?
    else none
  else none

/-- The argument of a parallel call is a smaller expression. -/
theorem size_parallelArgument?_lt {n a : Node} (h : n.parallelArgument? = some a) :
    a.size < n.size := by
  have hs := size_stripAwait_le n
  simp only [parallelArgument?, Option.bind_eq_bind] at h
  split at h
  · obtain ⟨f, _, h⟩ := Option.bind_eq_some_iff.1 h
    split at h
    · obtain ⟨g, hg, h⟩ := Option.bind_eq_some_iff.1 h
      have := size_lt_of_child? hg
      have := size_lt_of_part? h
      omega
    · cases h
  · cases h

/-- Whether a template has a part that must be evaluated. -/
def hasSubstitution (n : Node) : Bool := n.parts.any fun c => c.kind == .templateSubstitution

end Node

/-! ### Shapes -/

/-- The shapes of expression that are told apart. -/
inductive ExpressionShape
  | identifier
  | member
  | subscript
  | string
  | template
  | number
  | boolean
  | array
  | object
  | other
  deriving DecidableEq, Repr, Inhabited

namespace ExpressionShape

/-- The shape of an expression. -/
def of (n : Node) : ExpressionShape :=
  match n.kind with
  | .identifier | .shorthandProperty => identifier
  | .memberExpression => member
  | .subscriptExpression => subscript
  | .string => string
  | .templateString => template
  | .number => number
  | .trueValue | .falseValue => boolean
  | .array => array
  | .object => object
  | _ => other

/-- The word for a shape. -/
def name : ExpressionShape → String
  | identifier => "identifier"
  | member => "member"
  | subscript => "subscript"
  | string => "string"
  | template => "template"
  | number => "number"
  | boolean => "boolean"
  | array => "array"
  | object => "object"
  | other => "other"

end ExpressionShape

/-! ### Constructions -/

/-- A class being constructed, perhaps with a call of `action` on the result and an `await`. -/
structure Construction where
  /-- The `new` expression. -/
  node : Node
  hasAwait : Bool
  hasActionCall : Bool

namespace Construction

/-- The expression behind one `await`, and whether there was one. -/
def behindAwait? (n : Node) : Option (Node × Bool) :=
  if n.kind == .awaitExpression then (n.part?).map fun inner => (inner.stripParens, true)
  else some (n, false)

/-- The construction that an expression is. -/
def of? (n : Node) : Option Construction := do
  let (current, hasAwait) ← behindAwait? n.stripParens
  if current.kind == .callExpression then
    let function ← current.child? .function
    if function.kind == .memberExpression then
      let property ← function.child? .property
      if property.text == "action" then
        let object ← function.child? .object
        let (inner, innerAwait) ← behindAwait? object.stripParens
        if inner.kind == .newExpression then return ⟨inner, hasAwait || innerAwait, true⟩ else none
      else none
    else none
  else if current.kind == .newExpression then return ⟨current, hasAwait, false⟩
  else none

/-- The arguments of the constructor. -/
def arguments? (c : Construction) : Option Node := c.node.child? .arguments

/-- The name of the class, when it is a plain name. -/
def className? (c : Construction) : Option String := do
  let constructor ← c.node.child? .constructor
  if constructor.kind == .identifier then return constructor.text else none

theorem size_behindAwait?_le {n m : Node} {b : Bool} (h : behindAwait? n = some (m, b)) :
    m.size ≤ n.size := by
  rw [behindAwait?] at h
  split at h
  · obtain ⟨inner, hi, h⟩ := Option.map_eq_some_iff.1 h
    cases h
    have := Node.size_lt_of_part? hi
    have := Node.size_stripParens_le inner
    omega
  · cases h
    exact Nat.le_refl _

/-- What is constructed is no larger than the whole expression. -/
theorem size_of?_le {n : Node} {c : Construction} (h : of? n = some c) : c.node.size ≤ n.size := by
  have hn := Node.size_stripParens_le n
  simp only [of?, Option.bind_eq_bind] at h
  obtain ⟨⟨current, b⟩, hc, h⟩ := Option.bind_eq_some_iff.1 h
  have := size_behindAwait?_le hc
  simp only at h
  split at h
  · obtain ⟨f, hf, h⟩ := Option.bind_eq_some_iff.1 h
    have := Node.size_lt_of_child? hf
    split at h
    · obtain ⟨p, _, h⟩ := Option.bind_eq_some_iff.1 h
      split at h
      · obtain ⟨o, ho, h⟩ := Option.bind_eq_some_iff.1 h
        have := Node.size_lt_of_child? ho
        have := Node.size_stripParens_le o
        obtain ⟨⟨inner, b'⟩, hi, h⟩ := Option.bind_eq_some_iff.1 h
        have := size_behindAwait?_le hi
        simp only at h
        split at h
        · cases h
          simp only
          omega
        · cases h
      · cases h
    · cases h
  · split at h
    · cases h
      simp only
      omega
    · cases h

/-- The arguments of a construction are a smaller node than the whole expression. -/
theorem size_arguments?_lt {n a : Node} {c : Construction} (h : of? n = some c)
    (ha : c.arguments? = some a) : a.size < n.size :=
  Nat.lt_of_lt_of_le (Node.size_lt_of_child? ha) (size_of?_le h)

end Construction

end FlowAnalysis.Script
