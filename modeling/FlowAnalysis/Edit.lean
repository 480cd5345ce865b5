import FlowAnalysis.Script.Parsed
import FlowAnalysis.Text.Pattern

/-!
# Edits of a script

Two edits of source text: giving a variable another value where it is declared, and putting in
lines.  An edit either gives the new text or says why it cannot be made.
-/

namespace FlowAnalysis

open Script

/-- Why an edit cannot be made. -/
inductive EditError
  | variableNotFound (id : Int)
  | notAnAssignment (name : String) (line : Nat) (text : String)
  | multiLineValue (name : String) (line : Nat)
  | lineOutOfRange (line greatest : Nat)
  /-- The text has changed since it was last analysed. -/
  | stale
  deriving DecidableEq, Repr, Inhabited

namespace EditError

/-- The code of an error. -/
def code : EditError → String
  | variableNotFound _ => "M001"
  | notAnAssignment .. => "M002"
  | multiLineValue .. => "M003"
  | lineOutOfRange .. => "M004"
  | stale => "M005"

/-- The line of an error. -/
def line? : EditError → Option Nat
  | notAnAssignment _ line _ | multiLineValue _ line | lineOutOfRange line _ => some line
  | variableNotFound _ | stale => none

/-- The message of an error. -/
def message : EditError → String
  | variableNotFound id => s!"variable {id} was not found in the current scope graph"
  | notAnAssignment name line text =>
    s!"line {line} does not contain an assignment to '{name}': {text}"
  | multiLineValue name line =>
    s!"the value assigned to '{name}' on line {line} spans multiple lines"
  | lineOutOfRange line greatest => s!"line {line} is out of range (expected 1..={greatest})"
  | stale => "source must be re-parsed before this operation"

end EditError

namespace Edit

/-! ### Values of declarations -/

/-- Whether a declarator binds a plain name at a place. -/
def declares (location : Location) (n : Node) : Bool :=
  n.kind == .variableDeclarator &&
    match n.child? .name with
    | some name =>
      name.kind == .identifier && name.start.row + 1 == location.startLine
        && name.start.column == location.startCol
    | none => false

/-- The value that a variable is given where it is declared by its plain name. -/
def declaredValue? (root : Node) (v : Variable) : Option Node :=
  (root.descendants.find? (declares v.location)).bind (·.child? .value)

/-- The text with the bytes between two offsets replaced. -/
def splice (cs : List Char) (start stop : Nat) (new : List Char) : List Char :=
  takeBytes start cs ++ new ++ dropBytes stop cs
where
  /-- The characters that start before an offset. -/
  takeBytes : Nat → List Char → List Char
    | _, [] => []
    | n, c :: cs => if n = 0 then [] else c :: takeBytes (n - c.utf8Size) cs
  /-- The characters that start at an offset or after it. -/
  dropBytes : Nat → List Char → List Char
    | _, [] => []
    | n, c :: cs => if n = 0 then c :: cs else dropBytes (n - c.utf8Size) cs

/-! ### Assignments on a line -/

/-- An assignment to a name on a line of its own: the indentation, everything up to the value, the
value and the semicolon are groups 1 to 4. -/
def assignmentPattern (name : String) : Text.Pattern :=
  .all [.start,
    .group 1 .blanks,
    .group 2 (.all [
      .optional (.all [
        .optional (.all [.text "export", .run true 1 Text.isBlank]),
        .either (.text "const") (.either (.text "let") (.text "var")),
        .run true 1 Text.isBlank]),
      .text name, .boundary,
      .optional (.all [.blanks, .text ":", .run true 0 (· != '=')]),
      .blanks, .text "=", .blanks]),
    .group 3 (.run false 0 (· != '\n')),
    .group 4 (.optional (.text ";")),
    .blanks, .stop]

/-- Whether a text occurs in another. -/
def occursIn (piece : List Char) : List Char → Bool
  | [] => piece.isEmpty
  | c :: cs => piece.isPrefixOf (c :: cs) || occursIn piece cs

/-- Whether a text can be the value of an assignment that has its line to itself. -/
def isWholeValue (value : List Char) : Bool :=
  !(value.head? == some '=' || value.head? == some '>' || value.contains ';'
    || occursIn ['/', '/'] value || occursIn ['/', '*'] value)

/-- The line with another value assigned to a name. -/
def assignOnLine? (line name value : String) : Option String := do
  let groups ← (assignmentPattern name).first? line
  let indentation := (groups.lookup 1).getD ""
  let head := (groups.lookup 2).getD ""
  let old := (groups.lookup 3).getD ""
  let last := (groups.lookup 4).getD ""
  if isWholeValue old.toList then return indentation ++ head ++ Text.trim value ++ last else none

/-- The text with another value assigned to a name on a line. -/
def assignAtLine (source name : String) (line : Nat) (value : String) :
    Except EditError String :=
  let page := Text.Page.ofText source
  match page.lines[line - 1]? with
  | none => .error (.lineOutOfRange line page.lines.length)
  | some text =>
    match assignOnLine? text name value with
    | some new => .ok ({ page with lines := page.lines.set (line - 1) new }).toText
    | none => .error (.notAnAssignment name line text)

/-! ### The edits -/

/-- The text with another value for a variable: a declaration by name has its value replaced,
anything else must be an assignment on a line of its own. -/
def reassign (p : ParsedScript) (id : Int) (value : String) : Except EditError String :=
  match p.scopes.get? id with
  | none => .error (.variableNotFound id)
  | some v =>
    let line := v.location.startLine
    match declaredValue? p.root v with
    | some old =>
      if old.start.row != old.stop.row then .error (.multiLineValue v.name line)
      else
        .ok (String.ofList (splice p.source.toList old.start.offset old.stop.offset
          (Text.trim value).toList))
    | none => assignAtLine p.source v.name line value

/-- The text with lines put in, so that the first of them gets the given number. -/
def inject (source : String) (lines : List String) (at_ : Nat) : Except EditError String :=
  let page := Text.Page.ofText source
  let greatest := page.lines.length + 1
  if at_ = 0 || greatest < at_ then .error (.lineOutOfRange at_ greatest)
  else
    .ok ({ page with
      lines := page.lines.take (at_ - 1) ++ lines ++ page.lines.drop (at_ - 1) }).toText

end Edit

end FlowAnalysis
