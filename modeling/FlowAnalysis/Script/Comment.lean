import FlowAnalysis.Script.Cursor
import FlowAnalysis.Text.Blank
import FlowAnalysis.Text.Lines

/-!
# Comments that describe statements

The comments right above an item of a list of statements, members or elements describe it.  A blank
line ends the run of comments, and a comment on the line of the item before it belongs to that item.
-/

namespace FlowAnalysis.Script

namespace Comment

/-- The kinds of node whose children are items of a list. -/
def isList (k : Kind) : Bool :=
  k == .program || k == .statementBlock || k == .classBody || k == .switchCase
    || k == .switchDefault || k == .array || k == .object || k == .objectType
    || k == .interfaceBody

/-- The words of a comment: its marks are taken off, and its lines are joined by spaces. -/
def clean (raw : String) : String :=
  let raw := Text.trim raw
  match Text.after? "//" raw with
  | some line => Text.trim (Text.dropStart (· == '/') line)
  | none =>
    let inner :=
      match Text.after? "/*" raw with
      | some s => (Text.before? "*/" s).getD s
      | none => raw
    " ".intercalate
      (((Text.lines inner).map fun line =>
          Text.trim (Text.dropStart (· == '*') (Text.trim line))).filter fun line =>
        !line.isEmpty)

/-- Whether a comment stands on the line on which the item before it ends. -/
def isTrailing (comment : Node) : List Node → Bool
  | [] => false
  | p :: rest =>
    if p.isNamed then !p.isComment && p.stop.row == comment.start.row
    else if p.stop.row != comment.start.row then false
    else isTrailing comment rest

/-- The run of comments that ends right above a row, first one last. -/
def run (boundary : Nat) : List Node → List Node
  | [] => []
  | p :: rest =>
    if !p.isNamed then run boundary rest
    else if !p.isComment || p.stop.row + 1 < boundary || isTrailing p rest then []
    else p :: run p.start.row rest

/-- The comment above an item with the given siblings before it, nearest first. -/
def above (item : Node) (before : List Node) : Option String :=
  let texts := ((run item.start.row before).reverse.map fun c => clean c.text).filter fun s =>
    !s.isEmpty
  if texts.isEmpty then none else some (" ".intercalate texts)

/-- The comment above the list item in which a node stands. -/
def aboveItem (n : Node) : List Frame → Option String
  | [] => none
  | f :: rest => if isList f.parent.kind then above n f.before else aboveItem f.parent rest

end Comment

namespace Cursor

/-- The comment above the list item in which the node stands. -/
def comment? (c : Cursor) : Option String := Comment.aboveItem c.node c.above

end Cursor

end FlowAnalysis.Script
