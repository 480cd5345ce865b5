import FlowAnalysis.Options
import FlowAnalysis.Remaining
import FlowAnalysis.Script.Callable
import FlowAnalysis.Script.Statement

/-!
# Building workflows

Every statement of a block becomes one node.  A statement whose value is a located bubble becomes
that bubble, a call of a known callable becomes a call, and tasks given to `Promise.all` run side by
side; any other statement keeps its text and the bubbles and calls found inside it.  A call is
expanded into the body of its callable once in the whole tree, when that body leads to a bubble.
-/

namespace FlowAnalysis

open Script

namespace Workflow

/-- What a workflow is built from. -/
structure Setting where
  bubbles : ById Bubble
  calls : CallTable
  /-- The names of the callables that lead to a bubble. -/
  effects : List String
  options : Options
  imports : ByName String

/-- What has been done so far: the callables expanded and the bubbles placed. -/
structure Progress where
  expanded : List String := []
  used : List Int := []

/-- A computation that goes on from the progress made. -/
abbrev Builder (α : Type) := StateM Progress α

/-! ### Texts and flags -/

/-- The text of a condition without its parentheses. -/
def conditionText (condition : Option Node) : String :=
  (condition.map fun c => c.stripParens.text).getD ""

/-- A clause of a loop without the semicolon after it. -/
def clauseText (n : Node) (r : Role) : String :=
  match n.child? r with
  | some c => Text.trim (Text.dropEnd (· == ';') (Text.trim c.text))
  | none => ""

/-- The start, the condition and the step of a loop. -/
def countText (n : Node) : String :=
  s!"{clauseText n .initializer}; {clauseText n .condition}; {clauseText n .increment}"

/-- The variable and the collection of a loop. -/
def eachText (n : Node) : String :=
  " ".intercalate
    ([Role.kind, .left, .operator, .right].filterMap fun r => (n.child? r).map (·.text))

/-- Whether control never leaves a statement at its end. -/
def terminates (n : Node) : Bool :=
  match n.kind with
  | .returnStatement | .throwStatement => true
  | .statementBlock =>
    match _h : n.parts.getLast? with
    | some last => terminates last
    | none => false
  | .ifStatement =>
    (match _h : n.child? .consequence with
      | some c => terminates c
      | none => false) &&
    (match _h : (n.child? .alternative).bind (·.part?) with
      | some a => terminates a
      | none => false)
  | _ => false
termination_by n.size
decreasing_by
  · exact Node.size_lt_of_mem (Node.mem_children_of_mem_parts (List.mem_of_getLast? _h))
  · exact Node.size_lt_of_child? _h
  · obtain ⟨c, hc, h⟩ := Option.bind_eq_some_iff.1 _h
    exact Statement.size_lt_of_bind_part? hc h

/-! ### Values -/

/-- The value that a declaration of a single variable gives it, and what it is bound to. -/
def declaredValue? (n : Node) : Option (Node × Option String) :=
  match n.parts.filter fun d => d.kind == .variableDeclarator with
  | [d] => (d.child? .value).map fun v => (v, (d.child? .name).map (·.text))
  | _ => none

/-- The value that an expression computes, and what it is assigned to. -/
def assignedValue? (e : Node) : Option (Node × Option String) :=
  if e.kind == .assignmentExpression then
    (e.child? .right).map fun v => (v, (e.child? .left).map (·.text))
  else some (e, none)

/-- The value that a statement computes, and what it is bound to. -/
def computed? (n : Node) : Option (Node × Option String) :=
  match Statement.of n with
  | .declaration => declaredValue? n
  | .expression e => e.bind assignedValue?
  | .result e => e.map fun e => (e, none)
  | _ => none

/-- The value that a statement computes is smaller than the statement. -/
theorem size_computed?_lt {n v : Node} {binding : Option String}
    (h : computed? n = some (v, binding)) : v.size < n.size := by
  rw [computed?] at h
  split at h
  · rw [declaredValue?] at h
    split at h
    · next d hd =>
      obtain ⟨w, hw, h⟩ := Option.map_eq_some_iff.1 h
      cases h
      have hm : d ∈ n.parts := (List.mem_filter.1 (hd ▸ List.mem_singleton.2 rfl)).1
      exact Nat.lt_trans (Node.size_lt_of_child? hw)
        (Node.size_lt_of_mem (Node.mem_children_of_mem_parts hm))
    · cases h
  · next e he =>
    obtain ⟨e', he', h⟩ := Option.bind_eq_some_iff.1 h
    have hlt : e'.size < n.size := Statement.size_lt_of_mem_nodes (by
      rw [he, he', Statement.nodes]
      exact List.mem_singleton.2 rfl)
    rw [assignedValue?] at h
    split at h
    · obtain ⟨w, hw, h⟩ := Option.map_eq_some_iff.1 h
      cases h
      exact Nat.lt_trans (Node.size_lt_of_child? hw) hlt
    · cases h
      exact hlt
  · next e he =>
    obtain ⟨e', he', h⟩ := Option.map_eq_some_iff.1 h
    cases h
    exact Statement.size_lt_of_mem_nodes (by
      rw [he, he', Statement.nodes]
      exact List.mem_singleton.2 rfl)
  · cases h

/-- The kind of node for a statement that computes a value. -/
def computedKind : Statement → CodeKind
  | .declaration => .declaration
  | .result _ => .result
  | _ => .block

/-- The kind of node for a statement without a value. -/
def valuelessKind : Statement → CodeKind
  | .declaration => .declaration
  | _ => .block

/-! ### Bubbles -/

/-- The distance between two columns. -/
def distance (a b : Nat) : Nat := if a ≤ b then b - a else a - b

/-- Whether a bubble can be the one constructed by a class at a place. -/
def candidate (s : Setting) (used : List Int) (name : String) (at_ : Location) (b : Bubble) :
    Bool :=
  !used.contains b.variableId
    && (b.className == name || some b.className == s.imports.get? name)
    && b.location.startLine == at_.startLine && b.location.endLine == at_.endLine
    && distance b.location.startCol at_.startCol ≤ s.options.locationTolerance

/-- The nearest of some bubbles to a column, the first of those equally near. -/
def nearest? (col : Nat) : List Bubble → Option Bubble
  | [] => none
  | b :: bs =>
    some (bs.foldl
      (fun best b =>
        if distance b.location.startCol col < distance best.location.startCol col then b else best)
      b)

/-- The located bubble that an expression constructs, if it has not been placed, and the
construction. -/
def findBubble? (s : Setting) (used : List Int) (e : Node) : Option (Int × Construction) := do
  let c ← Construction.of? e
  let name ← c.className?
  let at_ := e.location
  let b ← nearest? at_.startCol (s.bubbles.values.filter (candidate s used name at_))
  return (b.variableId, c)

theorem of?_of_findBubble? {s : Setting} {used : List Int} {e : Node} {id : Int}
    {c : Construction} (h : findBubble? s used e = some (id, c)) : Construction.of? e = some c := by
  simp only [findBubble?, Option.bind_eq_bind] at h
  obtain ⟨c', hc, h⟩ := Option.bind_eq_some_iff.1 h
  obtain ⟨n, _, h⟩ := Option.bind_eq_some_iff.1 h
  obtain ⟨b, _, h⟩ := Option.bind_eq_some_iff.1 h
  cases h
  exact hc

/-- Records that a bubble has been placed. -/
def place (id : Int) : Builder Unit := modify fun p => { p with used := id :: p.used }

/-! ### Nodes -/

/-- What a statement becomes when it has no special shape: its text with what is found in it. -/
def plain (kind : CodeKind) (n : Node) (children : List WorkflowNode) : WorkflowNode :=
  .code (if children.isEmpty then .block else kind) n.location n.text children

/-- A single node as it is, several as the parts of a plain statement. -/
def single (kind : CodeKind) (n : Node) : List WorkflowNode → WorkflowNode
  | [child] => child
  | children => plain kind n children

/-- Whether a callable is expanded at a call. -/
def expands (s : Setting) (stack : List String) (p : Progress) (name : String) : Bool :=
  s.effects.contains name && s.options.expandMethodCalls && !p.expanded.contains name
    && !stack.contains name

/-- The node of a call. -/
def callNode (s : Setting) (n : Node) (c : Callable) (binding : Option String)
    (children : List WorkflowNode) : WorkflowNode :=
  .call (if s.effects.contains c.name || !children.isEmpty then .effect else .transformation)
    n.location c.name c.isMethod (some ⟨c.definition.location, c.isAsync, c.parameters⟩) binding
    n.text children

/-- The number of callables that are not being expanded. -/
def idle (s : Setting) (stack : List String) : Nat := remaining s.calls.callables.names stack

theorem mem_names_of_get? {t : CallTable} {name : String} {c : Callable}
    (h : t.get? name = some c) : name ∈ t.callables.names := by
  obtain ⟨l₁, l₂, h, _⟩ := List.lookup_eq_some_iff.1 h
  rw [ByName.names, h]
  simp

theorem mem_names_of_target? {t : CallTable} {name : String} {isThis : Bool} {c : Callable}
    (h : t.target? name isThis = some c) : name ∈ t.callables.names :=
  mem_names_of_get? (Option.filter_eq_some_iff.1 h).1

/-- Expanding a callable leaves fewer callables that are not being expanded. -/
theorem idle_cons_lt {s : Setting} {stack : List String} {p : Progress} {name : String}
    (h : name ∈ s.calls.callables.names) (he : expands s stack p name = true) :
    idle s (name :: stack) < idle s stack := by
  refine remaining_cons_lt h ?_
  simp only [expands, Bool.and_eq_true, Bool.not_eq_true', List.contains_eq_mem] at he
  simpa using he.2

/-- The order in which the parts of a workflow are built ends by fewer idle callables, then by
smaller nodes, then by a smaller rank of the function that builds it. -/
abbrev Below (a b : Nat × Nat × Nat) : Prop :=
  Prod.Lex (· < ·) (Prod.Lex (· < ·) (· < ·)) a b

theorem below_of_lt {i c d k l : Nat} (h : c < d) : Below (i, c, k) (i, d, l) :=
  .right _ (.left _ _ h)

theorem below_of_le {i c d k l : Nat} (h : c ≤ d) (hk : k < l) : Below (i, c, k) (i, d, l) := by
  rcases Nat.lt_or_eq_of_le h with h | h
  · exact below_of_lt h
  · subst h
    exact .right _ (.right _ hk)

/-! ### The tree -/

mutual

/-- The bubble that an expression constructs, then what is found in the arguments; nothing when the
expression is no located bubble. -/
def leaves? (s : Setting) (stack : List String) (e : Node) : Builder (Option (List WorkflowNode)) :=
  do
  let p ← get
  match _h : findBubble? s p.used e with
  | none => return none
  | some (id, c) =>
    place id
    match _ha : c.arguments? with
    | some a =>
      let inner ← collectAll s stack a.parts
      return some (.bubble id :: inner)
    | none => return some [.bubble id]
termination_by (idle s stack, e.size, 1)
decreasing_by
  exact below_of_lt (Nat.lt_trans (Node.sizeAll_parts_lt a)
    (Construction.size_arguments?_lt (of?_of_findBubble? _h) _ha))

/-- The call of a known callable that an expression is, with what is found in its arguments and,
when it is expanded here, in the body of the callable. -/
def call? (s : Setting) (stack : List String) (n e : Node) (binding : Option String) :
    Builder (Option WorkflowNode) := do
  if e.stripAwait.kind == .callExpression then
    match e.stripAwait.callTarget? with
    | none => return none
    | some (name, isThis) =>
      match _hc : s.calls.target? name isThis with
      | none => return none
      | some c =>
        let arguments ←
          match _ha : e.stripAwait.child? .arguments with
          | some a => collectAll s stack a.parts
          | none => pure []
        let p ← get
        if _he : expands s stack p name = true then
          set { p with expanded := name :: p.expanded }
          let body ←
            match c.body with
            | some b =>
              if b.kind == .statementBlock then statements s (name :: stack) b.parts
              else do
                let node ← value s (name :: stack) b b none .result
                pure [node]
            | none => pure []
          return some (callNode s n c binding (arguments ++ body))
        else return some (callNode s n c binding arguments)
  else return none
termination_by (idle s stack, e.size, 1)
decreasing_by
  · exact Prod.Lex.left _ _ (idle_cons_lt (mem_names_of_target? _hc) _he)
  · exact Prod.Lex.left _ _ (idle_cons_lt (mem_names_of_target? _hc) _he)
  · exact below_of_lt (Nat.lt_of_lt_of_le
      (Nat.lt_trans (Node.sizeAll_parts_lt a) (Node.size_lt_of_child? _ha))
      (Node.size_stripAwait_le e))

/-- The tasks that an expression runs side by side. -/
def parallel? (s : Setting) (stack : List String) (n e : Node) (binding : Option String) :
    Builder (Option WorkflowNode) := do
  match _h : e.parallelArgument? with
  | none => return none
  | some a =>
    let children ←
      if a.kind == .array then tasks s stack a.parts else collectAll s stack a.parts
    return some (.parallel n.location binding n.text children)
termination_by (idle s stack, e.size, 1)
decreasing_by
  · exact below_of_lt (Nat.lt_trans (Node.sizeAll_parts_lt a) (Node.size_parallelArgument?_lt _h))
  · exact below_of_lt (Nat.lt_trans (Node.sizeAll_parts_lt a) (Node.size_parallelArgument?_lt _h))

/-- One of several tasks. -/
def task (s : Setting) (stack : List String) (n : Node) : Builder WorkflowNode := do
  match ← leaves? s stack n with
  | some children => return single .block n children
  | none =>
    match ← call? s stack n n none with
    | some node => return node
    | none =>
      let children ← collect s stack n
      return .code .block n.location n.text children
termination_by (idle s stack, n.size, 3)
decreasing_by
  · exact below_of_le (Nat.le_refl _) (by decide)
  · exact below_of_le (Nat.le_refl _) (by decide)
  · exact below_of_le (Nat.le_refl _) (by decide)

/-- Tasks one after the other. -/
def tasks (s : Setting) (stack : List String) : List Node → Builder (List WorkflowNode)
  | [] => return []
  | n :: ns => do
    let node ← task s stack n
    let nodes ← tasks s stack ns
    return node :: nodes
termination_by ns => (idle s stack, Node.sizeAll ns, 4)
decreasing_by
  · rw [Node.sizeAll]
    exact below_of_le (Nat.le_add_right _ _) (by decide)
  · rw [Node.sizeAll]
    exact below_of_lt (by have := Node.size_pos n; omega)

/-- The bubbles and calls at a node or below it. -/
def collect (s : Setting) (stack : List String) (n : Node) : Builder (List WorkflowNode) := do
  match ← leaves? s stack n with
  | some nodes => return nodes
  | none =>
    let call ← if n.kind == .callExpression then call? s stack n n none else pure none
    match call with
    | some node => return [node]
    | none => collectAll s stack n.parts
termination_by (idle s stack, n.size, 2)
decreasing_by
  · exact below_of_le (Nat.le_refl _) (by decide)
  · exact below_of_lt (Node.sizeAll_parts_lt n)
  · exact below_of_le (Nat.le_refl _) (by decide)

/-- The bubbles and calls at nodes or below them, in order. -/
def collectAll (s : Setting) (stack : List String) : List Node → Builder (List WorkflowNode)
  | [] => return []
  | n :: ns => do
    let nodes ← collect s stack n
    let more ← collectAll s stack ns
    return nodes ++ more
termination_by ns => (idle s stack, Node.sizeAll ns, 3)
decreasing_by
  · rw [Node.sizeAll]
    exact below_of_le (Nat.le_add_right _ _) (by decide)
  · rw [Node.sizeAll]
    exact below_of_lt (by have := Node.size_pos n; omega)

/-- The bubbles and calls in a clause of a statement. -/
def clause (s : Setting) (stack : List String) (n : Node) (r : Role) :
    Builder (List WorkflowNode) :=
  match _h : n.child? r with
  | some c => collect s stack c
  | none => return []
termination_by (idle s stack, n.size, 1)
decreasing_by exact below_of_lt (Node.size_lt_of_child? _h)

/-- A statement that computes a value: a bubble, a call, parallel tasks or plain text. -/
def value (s : Setting) (stack : List String) (n e : Node) (binding : Option String)
    (kind : CodeKind) : Builder WorkflowNode := do
  match ← leaves? s stack e with
  | some children => return single kind n children
  | none =>
    match ← call? s stack n e binding with
    | some node => return node
    | none =>
      match ← parallel? s stack n e binding with
      | some node => return node
      | none =>
        let children ← collectAll s stack n.parts
        return plain kind n children
termination_by (idle s stack, max n.size e.size, 2)
decreasing_by
  · exact below_of_le (Nat.le_max_right _ _) (by decide)
  · exact below_of_le (Nat.le_max_right _ _) (by decide)
  · exact below_of_le (Nat.le_max_right _ _) (by decide)
  · exact below_of_lt (Nat.lt_of_lt_of_le (Node.sizeAll_parts_lt n) (Nat.le_max_left _ _))

/-- The nodes of a block, or the node of a single statement. -/
def block (s : Setting) (stack : List String) (n : Node) : Builder (List WorkflowNode) := do
  if n.kind == .statementBlock then statements s stack n.parts
  else
    let node ← statement s stack n
    return [node]
termination_by (idle s stack, n.size, 5)
decreasing_by
  · exact below_of_lt (Node.sizeAll_parts_lt n)
  · exact below_of_le (Nat.le_refl _) (by decide)

/-- The nodes of statements one after the other. -/
def statements (s : Setting) (stack : List String) : List Node → Builder (List WorkflowNode)
  | [] => return []
  | n :: ns => do
    let node ← statement s stack n
    let nodes ← statements s stack ns
    return node :: nodes
termination_by ns => (idle s stack, Node.sizeAll ns, 5)
decreasing_by
  · rw [Node.sizeAll]
    exact below_of_le (Nat.le_add_right _ _) (by decide)
  · rw [Node.sizeAll]
    exact below_of_lt (by have := Node.size_pos n; omega)

/-- The nodes of a branch that may be absent. -/
def branch (s : Setting) (stack : List String) (n : Node) (b : Option Node)
    (h : ∀ c ∈ b, c.size < n.size) : Builder (Option (List WorkflowNode)) :=
  match b, h with
  | some c, _h => some <$> block s stack c
  | none, _ => return none
termination_by (idle s stack, n.size, 3)
decreasing_by exact below_of_lt (_h c rfl)

/-- The node of a statement. -/
def statement (s : Setting) (stack : List String) (n : Node) : Builder WorkflowNode := do
  match hs : Statement.of n with
  | .choice condition consequence alternative =>
    let tests ← clause s stack n .condition
    let children ← branch s stack n consequence (Statement.size_lt_of_choice hs).1
    let otherwise ← branch s stack n alternative (Statement.size_lt_of_choice hs).2
    return .choice n.location (conditionText condition) (tests ++ children.getD []) otherwise
      ((consequence.map terminates).getD false) ((alternative.map terminates).getD false)
  | .count body =>
    let start ← clause s stack n .initializer
    let test ← clause s stack n .condition
    let step ← clause s stack n .increment
    let children ← branch s stack n body (Statement.size_lt_of_count hs)
    return .loop .counted n.location (countText n) (start ++ test ++ step ++ children.getD [])
  | .each body =>
    let right ← clause s stack n .right
    let children ← branch s stack n body (Statement.size_lt_of_each hs)
    return .loop .counted n.location (eachText n) (right ++ children.getD [])
  | .whilst condition body =>
    let tests ← clause s stack n .condition
    let children ← branch s stack n body (Statement.size_lt_of_whilst hs)
    return .loop .conditional n.location (conditionText condition) (tests ++ children.getD [])
  | .attempt body handler finalizer =>
    let children ← branch s stack n body (Statement.size_lt_of_attempt hs).1
    let handler ← branch s stack n handler (Statement.size_lt_of_attempt hs).2.1
    let finalizer ← branch s stack n finalizer (Statement.size_lt_of_attempt hs).2.2
    return .attempt n.location (children.getD []) handler finalizer
  | .block =>
    let children ← statements s stack n.parts
    return .code .block n.location n.text children
  | shape =>
    match _hv : computed? n with
    | some (v, binding) => value s stack n v binding (computedKind shape)
    | none =>
      let children ← collectAll s stack n.parts
      return plain (valuelessKind shape) n children
termination_by (idle s stack, n.size, 4)
decreasing_by
  all_goals first
    | exact below_of_le (Nat.le_refl _) (by decide)
    | exact below_of_lt (Node.sizeAll_parts_lt n)
    | exact below_of_le (Nat.max_le.2 ⟨Nat.le_refl _, Nat.le_of_lt (size_computed?_lt _hv)⟩)
        (by decide)

end

/-- The names of the callables that lead to a bubble. -/
def effectsOf (calls : CallTable) (bubbles : ById Bubble) : List String :=
  calls.callables.names.filter fun name => calls.leadsToBubble bubbles name

/-- The workflow of an entry point. -/
def build (root : Node) (handle : Method) (bubbles : ById Bubble) (calls : CallTable)
    (options : Options) : Workflow :=
  let s : Setting :=
    ⟨bubbles, calls, effectsOf calls bubbles, options, root.imports options.bubblePackage⟩
  let (nodes, progress) :=
    match handle.body with
    | some body => (block s ["handle"] body).run {}
    | none => ([], {})
  ⟨nodes, bubbles.filter fun id _ => progress.used.contains id⟩

end Workflow

end FlowAnalysis
