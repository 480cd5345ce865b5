import FlowAnalysis.Script.Kind

/-!
# Syntax trees

The tree keeps every character of the script.  A leaf is a token: it records where it starts, the
blank text before it and its own spelling.  A branch has only a kind and its children, so its text
and its extent are not stored but read off its leaves: the text of a branch is the text of its
children with the blanks between them, it starts where its first child starts, and it ends where its
last child ends.
-/

namespace FlowAnalysis.Script

/-- A place in a script: bytes from its start, line breaks before it, bytes since the last one. -/
structure Point where
  offset : Nat
  row : Nat
  column : Nat
deriving DecidableEq, Repr, Inhabited

namespace Point

/-- The start of a script. -/
def origin : Point := ⟨0, 0, 0⟩

/-- The place after one more character. -/
def step (p : Point) (c : Char) : Point :=
  if c = '\n' then ⟨p.offset + 1, p.row + 1, 0⟩
  else ⟨p.offset + c.utf8Size, p.row, p.column + c.utf8Size⟩

/-- The place after a run of characters. -/
def advance (p : Point) (cs : List Char) : Point := cs.foldl step p

/-- The order of places on the page: by row, then by column. -/
def before (p q : Point) : Bool := p.row < q.row || (p.row == q.row && p.column < q.column)

/-- At or before, on the page. -/
def notAfter (p q : Point) : Bool := !q.before p

end Point

/-- A node of a syntax tree. -/
inductive Node where
  /-- A leaf: its spelling, the blank text before it, and where it starts. -/
  | token (kind : Kind) (role : Option Role) (start : Point) (blank lexeme : String)
  /-- An inner node. -/
  | branch (kind : Kind) (role : Option Role) (children : List Node)
deriving Inhabited

namespace Node

def kind : Node → Kind
  | token k .. => k
  | branch k .. => k

def role : Node → Option Role
  | token _ r .. => r
  | branch _ r _ => r

def children : Node → List Node
  | token .. => []
  | branch _ _ cs => cs

/-- The same node in another role. -/
def withRole (r : Role) : Node → Node
  | token k _ p b l => token k (some r) p b l
  | branch k _ cs => branch k (some r) cs

/-- The same node in another role or in none. -/
def inRole (r : Option Role) : Node → Node
  | token k _ p b l => token k r p b l
  | branch k _ cs => branch k r cs

/-- The same node under another kind. -/
def withKind (k : Kind) : Node → Node
  | token _ r p b l => token k r p b l
  | branch _ r cs => branch k r cs

/-! ### Text and extent -/

mutual
/-- The text of a node together with the blank text before it. -/
def source : Node → String
  | token _ _ _ b l => b ++ l
  | branch _ _ cs => sourceAll cs
/-- The text of a run of siblings together with the blank text before each of them. -/
def sourceAll : List Node → String
  | [] => ""
  | c :: cs => c.source ++ sourceAll cs
end

mutual
/-- The text that a node spans. -/
def text : Node → String
  | token _ _ _ _ l => l
  | branch _ _ cs => textAll cs
/-- The text that a run of siblings spans, from its first token to its last. -/
def textAll : List Node → String
  | [] => ""
  | c :: cs => c.text ++ sourceAll cs
end

mutual
/-- The place of the first character. -/
def start : Node → Point
  | token _ _ p _ _ => p
  | branch _ _ cs => startFirst cs
/-- The place where a run of siblings starts. -/
def startFirst : List Node → Point
  | [] => Point.origin
  | c :: _ => c.start
end

mutual
/-- The place after the last character. -/
def stop : Node → Point
  | token _ _ p _ l => p.advance l.toList
  | branch _ _ cs => stopLast cs
/-- The place where a run of siblings ends. -/
def stopLast : List Node → Point
  | [] => Point.origin
  | [c] => c.stop
  | _ :: c :: cs => stopLast (c :: cs)
end

/-! ### Children -/

/-- Keywords and punctuation marks are anonymous, all other nodes are named. -/
def isNamed (n : Node) : Bool := n.kind != .anonymous

def isComment (n : Node) : Bool := n.kind == .comment

/-- The named children other than comments. -/
def parts (n : Node) : List Node := n.children.filter fun c => c.isNamed && !c.isComment

/-- The first named child that is not a comment. -/
def part? (n : Node) : Option Node := n.children.find? fun c => c.isNamed && !c.isComment

/-- The first child in the given role. -/
def child? (n : Node) (r : Role) : Option Node := n.children.find? fun c => c.role == some r

/-- Whether a keyword or mark with this spelling stands among the children. -/
def hasMark (n : Node) (mark : String) : Bool :=
  n.children.any fun c => c.kind == .anonymous && c.text == mark

mutual
/-- The node and everything below it, parents before children, siblings in order. -/
def descendants : Node → List Node
  | n@(token ..) => [n]
  | n@(branch _ _ cs) => n :: descendantsAll cs
/-- All nodes of a run of siblings, in the same order. -/
def descendantsAll : List Node → List Node
  | [] => []
  | c :: cs => c.descendants ++ descendantsAll cs
end

mutual
/-- The number of nodes, which bounds every recursion into a tree. -/
def size : Node → Nat
  | token .. => 1
  | branch _ _ cs => sizeAll cs + 1
/-- The number of nodes in a run of siblings. -/
def sizeAll : List Node → Nat
  | [] => 0
  | c :: cs => c.size + sizeAll cs
end

theorem size_le_sizeAll {c : Node} {cs : List Node} (h : c ∈ cs) : c.size ≤ sizeAll cs := by
  induction cs with
  | nil => cases h
  | cons d ds ih =>
    rw [sizeAll]
    rcases List.mem_cons.1 h with rfl | h
    · omega
    · have := ih h
      omega

/-- A child has fewer nodes than its parent. -/
theorem size_lt_of_mem {n c : Node} (h : c ∈ n.children) : c.size < n.size := by
  cases n with
  | token => cases h
  | branch k r cs =>
    have := size_le_sizeAll (show c ∈ cs from h)
    rw [size]
    omega

theorem mem_children_of_mem_parts {n c : Node} (h : c ∈ n.parts) : c ∈ n.children :=
  (List.mem_filter.1 h).1

theorem mem_children_of_part? {n c : Node} (h : n.part? = some c) : c ∈ n.children :=
  List.mem_of_find?_eq_some h

theorem mem_children_of_child? {n c : Node} {r : Role} (h : n.child? r = some c) :
    c ∈ n.children :=
  List.mem_of_find?_eq_some h

end Node

end FlowAnalysis.Script
