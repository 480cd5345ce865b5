import FlowAnalysis.Script.Lexeme

/-!
# Automatic semicolons

A statement may end without a semicolon: at the end of the script, before a closing brace, or at a
line break.  A line break ends it only if the next line does not start with something that goes on
with the statement, such as an operator or a dot.
-/

namespace FlowAnalysis.Script

/-- How a construct may end where it stands. -/
inductive Ending where
  /-- Only by what its surroundings ask for: it stands inside brackets. -/
  | never
  /-- It ends a statement, and it is an expression that an operator could go on with. -/
  | expression
  /-- It ends a statement, and no operator could follow. -/
  | plain
deriving DecidableEq, Repr

namespace Semicolon

/-- The characters after all blanks and comments, or `none` where a lone slash stands.  `fuel`
bounds the number of comments. -/
def pastTrivia : Nat → List Char → Option (List Char)
  | 0, cs => some cs
  | fuel + 1, cs =>
    match cs.dropWhile Lexeme.isPlainSpace with
    | '/' :: '/' :: rest => pastTrivia fuel (rest.dropWhile (· != '\n'))
    | '/' :: '*' :: rest =>
      match Lexeme.blockTail rest with
      | some (_, rest) => pastTrivia fuel rest
      | none => some []
    | '/' :: _ => none
    | rest => some rest

/-- The letters that could lengthen `in` and `instanceof`. -/
def isLetter (c : Char) : Bool := c.isAlpha

/-- The letters that follow `in` in `instanceof`. -/
def instanceTail : List Char := "stanceof".toList

/-- A word that starts with `i` goes on with the statement if it is `in` or `instanceof`. -/
def startsOperatorWord : List Char → Bool
  | 'n' :: cs =>
    if !(cs.head?.any isLetter) then true
    else
      match Lexeme.exactly instanceTail cs with
      | none => false
      | some (_, rest) => !(rest.head?.any isLetter)
  | _ => false

/-- Whether a new line that starts with these characters goes on with the statement. -/
def continues (ending : Ending) : List Char → Bool
  | '+' :: cs => cs.head? != some '+'
  | '-' :: cs => cs.head? != some '-'
  | '!' :: cs => cs.head? == some '='
  | 'i' :: cs => startsOperatorWord cs
  | c :: _ =>
    if c = '(' || c = '[' then ending == .expression
    else "\x60,.;*%><=?^|&/:".toList.contains c
  | [] => false

/-- Whether a semicolon is supplied right here.  A closing brace with a colon after it ends an
object pattern or a branch, and only an expression ends there. -/
def isSupplied (ending : Ending) (cs : List Char) : Bool :=
  match cs.dropWhile fun c => Lexeme.isPlainSpace c && c != '\n' with
  | [] => true
  | '\x7d' :: rest =>
    if (rest.dropWhile Lexeme.isPlainSpace).head? == some ':' then ending == .expression else true
  | '\n' :: rest =>
    match pastTrivia (rest.length + 1) rest with
    | some next => !continues ending next
    | none => false
  | _ => false

end Semicolon

end FlowAnalysis.Script
