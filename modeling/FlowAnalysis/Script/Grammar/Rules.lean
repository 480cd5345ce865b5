import FlowAnalysis.Script.Reader

/-!
# The shape of the grammar

Statements, expressions, patterns and types refer to each other without end.  The rules of each
family are therefore written against a record of *rules*, one reader per family, and the record is
closed in the last module of the grammar.  This module also holds what all families share: names and
the lookahead that tells a modifier from a name.
-/

namespace FlowAnalysis.Script

/-- The surroundings in which an expression is read. -/
structure Setting where
  /-- How the expression may end. -/
  ending : Ending
  /-- Whether an arrow function may state the type of its result: not where a colon is
  expected after the expression. -/
  typedArrows : Bool
  /-- Whether type arguments may stand after a value without a call: not after `extends`, where they
  belong to the clause. -/
  instances : Bool

namespace Setting

/-- Inside brackets. -/
def inner : Setting := ⟨.never, true, true⟩

/-- At the end of a statement. -/
def tail : Setting := ⟨.expression, true, true⟩

/-- After `extends`. -/
def heritage : Setting := ⟨.never, true, false⟩

/-- Between a question mark and its colon. -/
def branch (typedArrows : Bool) : Setting := ⟨.never, typedArrows, true⟩

end Setting

/-- One reader per family of constructs that nest in each other. -/
structure Rules where
  statement : Reader Node
  /-- A block of statements; the ending says what may follow it. -/
  block : Ending → Reader Node
  expression : Setting → Reader Node
  /-- An expression up to its unary operators. -/
  operand : Setting → Reader Node
  /-- Goes on with binary operators that bind at least as tightly as the given level. -/
  operators : Setting → Nat → Node → Reader Node
  /-- Goes on with property accesses, calls and the like. -/
  accesses : Setting → Node → Reader Node
  /-- The class that `new` constructs, without the arguments. -/
  constructed : Setting → Node → Reader Node
  /-- A binding or an assignment target. -/
  pattern : Reader Node
  type : Ending → Reader Node
  /-- A type up to its prefix operators. -/
  typeOperand : Ending → Reader Node

namespace Grammar

open Reader

/-! ### Names -/

/-- Words that never stand for a value. -/
def reservedWords : List String :=
  ["if", "else", "for", "while", "do", "return", "break", "continue", "switch", "case", "default",
    "try", "catch", "finally", "throw", "with", "in", "instanceof", "const", "var", "enum",
    "export", "extends", "debugger", "function", "class", "new", "typeof", "void", "delete",
    "import", "this", "super", "null", "true", "false", "await", "yield"]

/-- A word in a place where only a name can stand. -/
def name (k : Kind) : Reader Node := token k Lexeme.word

/-- A word other than some. -/
def wordBut (barred : List String) : Scanner := fun cs =>
  match Lexeme.word cs with
  | some (w, rest) => if barred.contains (String.ofList w) then none else some (w, rest)
  | none => none

/-- A word that is not reserved. -/
def freeWord : Scanner := wordBut reservedWords

/-- A name that is bound where no value can stand, so that reserved words are names too. -/
def boundName (barred : List String) : Reader Node := token .identifier (wordBut barred)

/-- The words that go on with the name before them. -/
def operatorWords : List String := ["in", "instanceof"]

/-- A name that is free to be bound. -/
def freeName (k : Kind) : Reader Node := token k freeWord

/-- The word `undefined` is a value of its own. -/
def identifier : Reader Node := do
  let n ← freeName .identifier
  return if n.text == "undefined" then n.withKind .undefinedValue else n

/-- A comment in the style of markup, which stands among statements. -/
def markupComment : Reader Node := token .markupComment Lexeme.markupComment

/-- A semicolon that may be supplied.  Where one could be, no comment in
the style of markup follows. -/
def supplied (e : Ending) : Pieces :=
  automatic e <|> do
    absent (sub markupComment)
    return []

/-- Reads what opens with a brace, a name and a colon: an object with a property, where they could
also open a block with a label. -/
def objectFirst (p : Reader Node) : Reader Node := do
  ahead (seq [sym "\x7b", sub (freeName .statementIdentifier), sym ":"])
  p

/-- A string literal. -/
def stringLiteral : Reader Node := token .string Lexeme.string

/-- A number literal. -/
def numberLiteral : Reader Node := token .number Lexeme.number

/-- A property name computed from an expression. -/
def computedName (r : Rules) : Reader Node :=
  node .computedPropertyName (seq [sym "[", sub (r.expression .inner), sym "]"])

/-- The name of a property or a class member. -/
def propertyName (r : Rules) : Reader Node :=
  oneOf [name .propertyIdentifier, token .privatePropertyIdentifier Lexeme.privateName,
    stringLiteral, numberLiteral, computedName r]

/-! ### Modifiers -/

/-- The beginning of a member after a modifier: another word, a quoted or computed name, a star. -/
def startsMember : Scanner := fun cs =>
  match cs with
  | '#' :: _ | '[' :: _ | '*' :: _ | '"' :: _ | '\'' :: _ => some ([], cs)
  | c :: _ => if Lexeme.isWordPart c || c == '\\' then some ([], cs) else none
  | [] => none

/-- A modifier before a member: the word, unless it is the member's own name. -/
def modifier (k : Kind) (w : String) : Pieces := do
  let ns ← sub (token k (Lexeme.keyword w))
  goesOn .plain
  ahead (do
    let _ ← comments
    token .anonymous startsMember)
  return ns

/-- A modifier that is an ordinary keyword. -/
def flag (w : String) : Pieces := opt (modifier .anonymous w)

/-- `public`, `private` or `protected`.  The node wraps the keyword. -/
def accessibility : Pieces := do
  let ns ← oneOf (["public", "private", "protected"].map (modifier .anonymous))
  return ns.map fun n => if n.isComment then n else Node.branch .accessibilityModifier none [n]

/-- The modifiers of a method, up to its name. -/
def methodModifiers : Pieces :=
  seq [opt accessibility, flag "static", opt (modifier .overrideModifier "override"),
    flag "readonly", flag "async",
    opt (oneOf [modifier .anonymous "get", modifier .anonymous "set", sym "*"])]

end Grammar

end FlowAnalysis.Script
