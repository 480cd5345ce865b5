/-!
# Lines

A line ends at a line feed, and a carriage return right before the line feed belongs to the line
end.  A text that ends with a line feed has no empty line after it.
-/

namespace FlowAnalysis.Text

/-- A finished line without the carriage return before its line feed. -/
def withoutReturn (line : List Char) : List Char :=
  match line.getLast? with
  | some '\r' => line.dropLast
  | _ => line

/-- The lines of a text; `current` holds the characters of the line being read, last first. -/
def linesFrom (current : List Char) : List Char → List (List Char)
  | [] => if current.isEmpty then [] else [current.reverse]
  | '\n' :: cs => withoutReturn current.reverse :: linesFrom [] cs
  | c :: cs => linesFrom (c :: current) cs

/-- The lines of a text. -/
def lines (s : String) : List String := (linesFrom [] s.toList).map String.ofList

/-- The number of lines; an empty text counts as one line. -/
def lineCount (s : String) : Nat := max (lines s).length 1

/-- How the lines of a text end. -/
inductive LineEnd
  | lf
  | crlf
  deriving DecidableEq, Repr, Inhabited

namespace LineEnd

/-- The characters of a line end. -/
def text : LineEnd → String
  | lf => "\n"
  | crlf => "\r\n"

/-- Whether a carriage return and a line feed stand next to each other. -/
def hasPair : List Char → Bool
  | '\r' :: '\n' :: _ => true
  | _ :: cs => hasPair cs
  | [] => false

/-- The line end that a text uses: the long one as soon as it occurs. -/
def of (s : String) : LineEnd := if hasPair s.toList then crlf else lf

end LineEnd

/-- A text as lines: the lines, how they end, and whether the last one is closed by a line end. -/
structure Page where
  lines : List String
  ending : LineEnd
  closed : Bool
  deriving DecidableEq, Repr, Inhabited

namespace Page

/-- The page that a text makes. -/
def ofText (s : String) : Page := ⟨Text.lines s, LineEnd.of s, s.toList.getLast? == some '\n'⟩

/-- The text of a page. -/
def toText (p : Page) : String :=
  let body := p.ending.text.intercalate p.lines
  if p.closed && !p.lines.isEmpty then body ++ p.ending.text else body

end Page

end FlowAnalysis.Text
