import FlowAnalysis.Json.Record
import FlowAnalysis.Script.Node

/-!
# Locations

A location is a span of source text.  Lines count from one, columns count bytes from zero, and the
end is not part of the span.
-/

namespace FlowAnalysis

/-- A span of source text. -/
structure Location where
  startLine : Nat
  startCol : Nat
  endLine : Nat
  endCol : Nat
  deriving DecidableEq, Repr, Inhabited

namespace Location

/-- Whether a line lies in the span. -/
def containsLine (l : Location) (line : Nat) : Bool := l.startLine ≤ line && line ≤ l.endLine

/-- The number of line ends inside the span. -/
def lineSpan (l : Location) : Nat := l.endLine - l.startLine

/-- Whether one position comes before another or is the same. -/
def notAfter (line col line' col' : Nat) : Bool := line < line' || (line == line' && col ≤ col')

/-- Whether another span lies entirely within this one. -/
def encloses (l m : Location) : Bool :=
  notAfter l.startLine l.startCol m.startLine m.startCol
    && notAfter m.endLine m.endCol l.endLine l.endCol

/-- Whether one span starts before another. -/
def startsBefore (l m : Location) : Bool :=
  l.startLine < m.startLine || (l.startLine == m.startLine && l.startCol < m.startCol)

/-- The fields of a location. -/
def fields : List String := ["startLine", "startCol", "endLine", "endCol"]

/-- A location as JSON. -/
def toJson (l : Location) : Json :=
  .obj [("startLine", .ofNat l.startLine), ("startCol", .ofNat l.startCol),
    ("endLine", .ofNat l.endLine), ("endCol", .ofNat l.endCol)]

/-- Reads a location. -/
def ofJson? (j : Json) : Option Location := do
  let r ← Json.Record.of? fields j
  let startLine ← r.required "startLine" Json.count?
  let startCol ← r.required "startCol" Json.count?
  let endLine ← r.required "endLine" Json.count?
  let endCol ← r.required "endCol" Json.count?
  return ⟨startLine, startCol, endLine, endCol⟩

end Location

namespace Script.Node

/-- The span of a node. -/
def location (n : Node) : Location :=
  ⟨n.start.row + 1, n.start.column, n.stop.row + 1, n.stop.column⟩

/-- The line on which a node starts. -/
def line (n : Node) : Nat := n.start.row + 1

end Script.Node

end FlowAnalysis
