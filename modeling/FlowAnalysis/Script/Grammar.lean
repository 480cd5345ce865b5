import FlowAnalysis.Script.Grammar.Statements

/-!
# Scripts

The families of the grammar are tied together here.  Every nested construct is read with one unit of
fuel less, and a text cannot nest deeper than a fixed multiple of its length.
-/

namespace FlowAnalysis

namespace Script

namespace Grammar

open Reader

/-- The rules of the grammar, nested at most as deep as the fuel allows. -/
def rules : Nat → Rules
  | 0 =>
    { statement := failure, block := fun _ => failure, expression := fun _ => failure,
      operand := fun _ => failure, operators := fun _ _ _ => failure,
      accesses := fun _ _ => failure, constructed := fun _ _ => failure, pattern := failure,
      type := fun _ => failure, typeOperand := fun _ => failure }
  | fuel + 1 =>
    { statement := fun input => Grammar.statement (rules fuel) input
      block := fun e input => Grammar.block (rules fuel) e input
      expression := fun s input => Grammar.expression (rules fuel) s input
      operand := fun s input => Grammar.operand (rules fuel) s input
      operators := fun s least left input => Grammar.operators (rules fuel) s least left input
      accesses := fun s left input => Grammar.accesses (rules fuel) s left input
      constructed := fun s left input => Grammar.constructed (rules fuel) s left input
      pattern := fun input => Grammar.pattern (rules fuel) input
      type := fun e input => Grammar.type (rules fuel) e input
      typeOperand := fun e input => Grammar.typeOperand (rules fuel) e input }

/-- A whole script: statements up to the end of the text. -/
def program (r : Rules) : Reader Node :=
  node .program
    (seq [opt ((fun n => [n]) <$> tight .hashBang Lexeme.hashBang), statements r,
      sub (token .anonymous fun cs => if cs.isEmpty then some ([], []) else none)])

end Grammar

end Script

/-- A script with its syntax tree. -/
structure Script where
  source : String
  root : Script.Node

namespace Script

/-- Reads a script; there is none when the text breaks the grammar. -/
@[irreducible]
def parse? (source : String) : Option Script :=
  let chars := source.toList
  match Grammar.program (Grammar.rules (8 * chars.length + 64)) ⟨chars, .origin⟩ with
  | some (root, _) => some ⟨source, root⟩
  | none => none

end Script

end FlowAnalysis
