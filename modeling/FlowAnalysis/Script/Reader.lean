import FlowAnalysis.Script.Node
import FlowAnalysis.Script.Semicolon

/-!
# Reading syntax trees

A `Reader` consumes characters and builds nodes, or refuses and leaves the choice to an alternative.
Grammar rules are put together from *pieces*, lists of nodes that become children of the node being
built.  A piece that reads a token first takes the comments before it, so a comment becomes a child
of the innermost node that has a token on either side of it.
-/

namespace FlowAnalysis.Script

/-- The characters still to be read and the place of the first of them. -/
structure Input where
  chars : List Char
  point : Point

/-- A reader consumes input and gives a value, or refuses. -/
abbrev Reader (α : Type) := StateT Input Option α

/-- A reader of children for the node being built. -/
abbrev Pieces := Reader (List Node)

namespace Reader

/-! ### Tokens -/

/-- Reads a token: the blanks before it, then the lexeme that the scanner accepts. -/
def token (kind : Kind) (scan : Scanner) : Reader Node := fun input =>
  let (blank, rest) := input.chars.span Lexeme.isSpacing
  let start := input.point.advance blank
  match scan rest with
  | some (lexeme, rest) =>
    some (.token kind none start (String.ofList blank) (String.ofList lexeme),
      ⟨rest, start.advance lexeme⟩)
  | none => none

/-- Reads a token that starts right here, blanks included. -/
def tight (kind : Kind) (scan : Scanner) : Reader Node := fun input =>
  match scan input.chars with
  | some (lexeme, rest) =>
    some (.token kind none input.point "" (String.ofList lexeme),
      ⟨rest, input.point.advance lexeme⟩)
  | none => none

/-- Repeats a reader until it refuses or stops making progress; `fuel` bounds the repetitions. -/
def repeated {α : Type} (p : Reader α) : Nat → Input → List α → List α × Input
  | 0, input, acc => (acc.reverse, input)
  | fuel + 1, input, acc =>
    match p input with
    | none => (acc.reverse, input)
    | some (a, next) => repeated p fuel next (a :: acc)

/-- Zero or more repetitions.  Every repetition consumes something, so their number is bounded by
the characters left. -/
def many {α : Type} (p : Reader α) : Reader (List α) := fun input =>
  some (repeated p input.chars.length input [])

/-- The comments before the next token. -/
def comments : Pieces := many (token .comment Lexeme.comment)

/-! ### Pieces -/

/-- The comments before a node, then the node. -/
def sub (p : Reader Node) : Pieces := do
  let cs ← comments
  let n ← p
  return cs ++ [n]

/-- A node in a role. -/
def field (r : Role) (p : Reader Node) : Pieces := sub (Node.withRole r <$> p)

/-- Every named piece in a role. -/
def fields (r : Role) (p : Pieces) : Pieces :=
  p <&> List.map fun n => if n.isComment then n else n.withRole r

/-- A keyword. -/
def kw (w : String) : Pieces := sub (token .anonymous (Lexeme.keyword w))

/-- A mark that is not part of a longer one. -/
def sym (m : String) : Pieces := sub (token .anonymous (Lexeme.symbol m))

/-- A mark, whatever follows it. -/
def glyph (m : String) : Pieces := sub (token .anonymous (Lexeme.exactly m.toList))

/-- Pieces one after the other. -/
def seq : List Pieces → Pieces
  | [] => pure []
  | p :: ps => do
    let ns ← p
    let ms ← seq ps
    return ns ++ ms

/-- The first of the readers that accepts. -/
def oneOf {α : Type} : List (Reader α) → Reader α
  | [] => failure
  | p :: ps => p <|> oneOf ps

/-- Pieces that may be absent. -/
def opt (p : Pieces) : Pieces := p <|> pure []

/-- Zero or more pieces. -/
def star (p : Pieces) : Pieces := List.flatten <$> many p

/-- One or more pieces with a separator between any two. -/
def sepBy1 (p separator : Pieces) : Pieces := seq [p, star (seq [separator, p])]

/-- A node around pieces. -/
def node (k : Kind) (p : Pieces) : Reader Node := Node.branch k none <$> p

/-- A node whose first child has been read already. -/
def around (k : Kind) (first : Node) (p : Pieces) : Reader Node :=
  (fun ns => Node.branch k none (first :: ns)) <$> p

/-- Succeeds without consuming anything when the reader would accept. -/
def ahead {α : Type} (p : Reader α) : Reader Unit := fun input =>
  match p input with
  | some _ => some ((), input)
  | none => none

/-- Succeeds without consuming anything when the reader would refuse. -/
def absent {α : Type} (p : Reader α) : Reader Unit := fun input =>
  match p input with
  | some _ => none
  | none => some ((), input)

/-! ### The ends of statements -/

/-- The comments up to a semicolon that is supplied automatically, when there is one. -/
def suppliedAfter (ending : Ending) : Nat → Input → Option (List Node × Input)
  | 0, _ => none
  | fuel + 1, input =>
    if Semicolon.isSupplied ending input.chars then some ([], input)
    else
      match token .comment Lexeme.comment input with
      | some (c, next) => (suppliedAfter ending fuel next).map fun (cs, last) => (c :: cs, last)
      | none => none

/-- An automatic semicolon: it has no text, and takes the comments on its line into the node that
it ends. -/
def automatic (ending : Ending) : Pieces := fun input =>
  suppliedAfter ending (input.chars.length + 1) input

/-- The end of a statement: an automatic semicolon or a written one. -/
def semicolon (ending : Ending) : Pieces := automatic ending <|> sym ";"

/-- Succeeds unless the construct read so far is ended by an automatic semicolon. -/
def goesOn (ending : Ending) : Reader Unit :=
  if ending = .never then pure () else absent (automatic ending)

/-- Pieces that go on with a construct. -/
def further (ending : Ending) (p : Pieces) : Pieces := do
  goesOn ending
  p

end Reader

end FlowAnalysis.Script
