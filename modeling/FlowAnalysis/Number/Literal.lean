import FlowAnalysis.Number.Binary64

/-!
# Numbers written as text

A text can stand for a signed 64-bit integer or for a floating-point number.  Both readers accept a
sign in front, and the second also digits on only one side of the point.
-/

namespace FlowAnalysis.Number

/-- The first number that does not fit into 64 bits. -/
def wordBound : Nat := 0x10000000000000000

/-- The first number that does not fit into 64 bits with a sign. -/
def signedBound : Nat := 0x8000000000000000

/-- Whether a character is a decimal digit. -/
def isDigit (c : Char) : Bool := '0' ≤ c && c ≤ '9'

/-- The number that decimal digits write. -/
def ofDigits (ds : List Char) : Nat := ds.foldl (fun n c => 10 * n + (c.toNat - 48)) 0

/-- A number in decimal digits only. -/
def natural? (cs : List Char) : Option Nat :=
  if !cs.isEmpty && cs.all isDigit then some (ofDigits cs) else none

/-- The sign in front of a number and what follows it. -/
def signed : List Char → Bool × List Char
  | '-' :: cs => (true, cs)
  | '+' :: cs => (false, cs)
  | cs => (false, cs)

/-- A number without a minus sign that is at most `bound`. -/
def bounded? (bound : Nat) (s : String) : Option Nat :=
  let (negative, cs) := signed s.toList
  if negative then none
  else
    match natural? cs with
    | some n => if n ≤ bound then some n else none
    | none => none

/-- A signed 64-bit integer. -/
def integer? (s : String) : Option Int :=
  let (negative, cs) := signed s.toList
  match natural? cs with
  | some n =>
    if negative then (if n ≤ signedBound then some (-(n : Int)) else none)
    else if n < signedBound then some n
    else none
  | none => none

/-- The exponent after the digits of a number, zero when there is none. -/
def exponent? : List Char → Option Int
  | [] => some 0
  | c :: cs =>
    if c == 'e' || c == 'E' then
      let (negative, ds) := signed cs
      (natural? ds).map fun n => if negative then -(n : Int) else n
    else none

/-- A floating-point number that is finite. -/
def float? (s : String) : Option Binary64 :=
  let (negative, cs) := signed s.toList
  let (whole, rest) := cs.span isDigit
  let (part, rest) :=
    match rest with
    | '.' :: ds => ds.span isDigit
    | _ => ([], rest)
  if whole.isEmpty && part.isEmpty then none
  else
    match exponent? rest with
    | some e =>
      let magnitude := Binary64.ofDecimal (ofDigits (whole ++ part)) (e - part.length)
      if magnitude < Binary64.infinity then some ⟨negative, magnitude⟩ else none
    | none => none

end FlowAnalysis.Number
