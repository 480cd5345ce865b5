import FlowAnalysis.Script.Node

/-!
# Places in a tree

A cursor is a node together with the nodes above it and, at each level, the siblings before it.  It
answers questions that look upwards or back.
-/

namespace FlowAnalysis.Script

/-- A level above a node: the parent, and the siblings before, nearest first. -/
structure Frame where
  parent : Node
  before : List Node

/-- A node with its surroundings, innermost level first. -/
structure Cursor where
  node : Node
  above : List Frame

namespace Node

/-- Each of a run of siblings with the siblings before it, nearest first. -/
def withBefore (before : List Node) : List Node → List (Node × List Node)
  | [] => []
  | n :: ns => (n, before) :: withBefore (n :: before) ns

/-- The named children other than comments, each with all children before it, nearest first. -/
def partsWithBefore (n : Node) : List (Node × List Node) :=
  (withBefore [] n.children).filter fun c => c.1.isNamed && !c.1.isComment

/-- Without what stands before them they are just the named children other than comments. -/
theorem map_partsWithBefore (n : Node) : n.partsWithBefore.map Prod.fst = n.parts := by
  have key : ∀ cs before : List Node,
      ((withBefore before cs).filter fun c => c.1.isNamed && !c.1.isComment).map Prod.fst
        = cs.filter fun c => c.isNamed && !c.isComment := by
    intro cs
    induction cs with
    | nil => intro before; rfl
    | cons c cs ih =>
      intro before
      rw [withBefore, List.filter_cons, List.filter_cons]
      split
      · rw [List.map_cons, ih]
      · exact ih _
  exact key n.children []

end Node

namespace Cursor

/-- The cursor at the root of a tree. -/
def root (n : Node) : Cursor := ⟨n, []⟩

/-- The cursors at the children. -/
def children (c : Cursor) : List Cursor :=
  (Node.withBefore [] c.node.children).map fun (n, before) => ⟨n, ⟨c.node, before⟩ :: c.above⟩

/-- The first child in a role. -/
def child? (c : Cursor) (r : Role) : Option Cursor :=
  c.children.find? fun d => d.node.role == some r

/-- The children that are named and not comments. -/
def parts (c : Cursor) : List Cursor :=
  c.children.filter fun d => d.node.isNamed && !d.node.isComment

/-- The first child that is named and not a comment. -/
def part? (c : Cursor) : Option Cursor :=
  c.children.find? fun d => d.node.isNamed && !d.node.isComment

mutual

/-- The cursors at a node and everything below it, parents first. -/
def below (above : List Frame) : Node → List Cursor
  | n@(.token ..) => [⟨n, above⟩]
  | n@(.branch _ _ cs) => ⟨n, above⟩ :: belowAll n [] above cs

/-- The cursors at siblings and everything below them. -/
def belowAll (parent : Node) (before : List Node) (above : List Frame) : List Node → List Cursor
  | [] => []
  | c :: cs => below (⟨parent, before⟩ :: above) c ++ belowAll parent (c :: before) above cs

end

/-- The cursors at every node of a tree, parents first. -/
def everywhere (n : Node) : List Cursor := below [] n

end Cursor

end FlowAnalysis.Script
