import FlowAnalysis.Script.Expression

/-!
# Statements

The statements that a workflow tells apart, with the nodes it looks into.  Everything
else is taken as plain text.
-/

namespace FlowAnalysis.Script

/-- The shapes of statement that are told apart. -/
inductive Statement
  /-- An `if`; the alternative is the statement inside the `else`. -/
  | choice (condition consequence alternative : Option Node)
  /-- A `for` with a start, a condition and a step. -/
  | count (body : Option Node)
  /-- A `for` over a collection. -/
  | each (body : Option Node)
  /-- A `while`, or a `do` with its condition at the end. -/
  | whilst (condition body : Option Node)
  | attempt (body handler finalizer : Option Node)
  | declaration
  | expression (e : Option Node)
  | result (e : Option Node)
  | block
  | other

namespace Statement

/-- The shape of a statement. -/
def of (n : Node) : Statement :=
  match n.kind with
  | .ifStatement =>
    .choice (n.child? .condition) (n.child? .consequence) ((n.child? .alternative).bind (·.part?))
  | .forStatement => .count (n.child? .body)
  | .forInStatement => .each (n.child? .body)
  | .whileStatement | .doStatement => .whilst (n.child? .condition) (n.child? .body)
  | .tryStatement =>
    .attempt (n.child? .body) ((n.child? .handler).bind (·.child? .body))
      ((n.child? .finalizer).bind (·.child? .body))
  | .lexicalDeclaration | .variableDeclaration => .declaration
  | .expressionStatement => .expression n.part?
  | .returnStatement => .result n.part?
  | .statementBlock => .block
  | _ => .other

/-- The word for a shape. -/
def name : Statement → String
  | choice .. => "if"
  | count _ => "for"
  | each _ => "for_in"
  | whilst .. => "while"
  | attempt .. => "try"
  | declaration => "declaration"
  | expression _ => "expression"
  | result _ => "return"
  | block => "block"
  | other => "other"

/-- The nodes that a statement looks into. -/
def nodes : Statement → List Node
  | choice condition consequence alternative =>
    condition.toList ++ consequence.toList ++ alternative.toList
  | count body | each body => body.toList
  | whilst condition body => condition.toList ++ body.toList
  | attempt body handler finalizer => body.toList ++ handler.toList ++ finalizer.toList
  | expression e | result e => e.toList
  | declaration | block | other => []

theorem size_lt_of_bind_part? {n m c : Node} {r : Role} (h : n.child? r = some m)
    (hc : m.part? = some c) : c.size < n.size :=
  Nat.lt_trans (Node.size_lt_of_part? hc) (Node.size_lt_of_child? h)

theorem size_lt_of_bind_child? {n m c : Node} {r r' : Role} (h : n.child? r = some m)
    (hc : m.child? r' = some c) : c.size < n.size :=
  Nat.lt_trans (Node.size_lt_of_child? hc) (Node.size_lt_of_child? h)

/-- The nodes that a statement looks into are smaller than the statement. -/
theorem size_lt_of_mem_nodes {n m : Node} (h : m ∈ (of n).nodes) : m.size < n.size := by
  have child : ∀ {r : Role}, m ∈ (n.child? r).toList → m.size < n.size := fun h =>
    Node.size_lt_of_child? (Option.mem_toList.1 h)
  have part : m ∈ (n.part?).toList → m.size < n.size := fun h =>
    Node.size_lt_of_part? (Option.mem_toList.1 h)
  have childPart : ∀ {r : Role}, m ∈ ((n.child? r).bind (·.part?)).toList → m.size < n.size := by
    intro r h
    obtain ⟨c, hc, h⟩ := Option.bind_eq_some_iff.1 (Option.mem_toList.1 h)
    exact size_lt_of_bind_part? hc h
  have childChild : ∀ {r r' : Role}, m ∈ ((n.child? r).bind (·.child? r')).toList →
      m.size < n.size := by
    intro r r' h
    obtain ⟨c, hc, h⟩ := Option.bind_eq_some_iff.1 (Option.mem_toList.1 h)
    exact size_lt_of_bind_child? hc h
  rw [of] at h
  split at h
  all_goals simp only [nodes, List.mem_append, List.not_mem_nil] at h
  · rcases h with (h | h) | h
    · exact child h
    · exact child h
    · exact childPart h
  · exact child h
  · exact child h
  · exact h.elim child child
  · exact h.elim child child
  · rcases h with (h | h) | h
    · exact child h
    · exact childChild h
    · exact childChild h
  · exact part h
  · exact part h

theorem size_lt_of_choice {n : Node} {a b c : Option Node} (h : of n = .choice a b c) :
    (∀ m ∈ b, m.size < n.size) ∧ (∀ m ∈ c, m.size < n.size) := by
  constructor <;> intro m hm <;> refine size_lt_of_mem_nodes ?_ <;> rw [h, nodes] <;> simp_all

theorem size_lt_of_count {n : Node} {b : Option Node} (h : of n = .count b) :
    ∀ m ∈ b, m.size < n.size := by
  intro m hm
  refine size_lt_of_mem_nodes ?_
  rw [h, nodes]
  simp_all

theorem size_lt_of_each {n : Node} {b : Option Node} (h : of n = .each b) :
    ∀ m ∈ b, m.size < n.size := by
  intro m hm
  refine size_lt_of_mem_nodes ?_
  rw [h, nodes]
  simp_all

theorem size_lt_of_whilst {n : Node} {a b : Option Node} (h : of n = .whilst a b) :
    ∀ m ∈ b, m.size < n.size := by
  intro m hm
  refine size_lt_of_mem_nodes ?_
  rw [h, nodes]
  simp_all

theorem size_lt_of_attempt {n : Node} {a b c : Option Node} (h : of n = .attempt a b c) :
    (∀ m ∈ a, m.size < n.size) ∧ (∀ m ∈ b, m.size < n.size) ∧ (∀ m ∈ c, m.size < n.size) := by
  refine ⟨?_, ?_, ?_⟩ <;> intro m hm <;> refine size_lt_of_mem_nodes ?_ <;> rw [h, nodes] <;>
    simp_all

end Statement

end FlowAnalysis.Script
