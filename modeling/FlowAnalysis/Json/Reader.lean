import FlowAnalysis.Json.Basic
import FlowAnalysis.Number.Literal

/-!
# Reading JSON

Between tokens stand spaces, tabs, line feeds and carriage returns.  A whole number that does not
fit into 64 bits, and zero with a minus sign, are floating-point numbers.  The significand of a
floating-point number is cut to 64 bits before it is scaled by a power of ten.
-/

namespace FlowAnalysis.Json

/-! ### Strings -/

/-- The value of a hexadecimal digit. -/
def hexDigit? (c : Char) : Option Nat :=
  if '0' ≤ c && c ≤ '9' then some (c.toNat - 48)
  else if 'a' ≤ c && c ≤ 'f' then some (c.toNat - 87)
  else if 'A' ≤ c && c ≤ 'F' then some (c.toNat - 55)
  else none

/-- Four hexadecimal digits and what follows them. -/
def unit? : List Char → Option (Nat × List Char)
  | a :: b :: c :: d :: cs => do
    let a ← hexDigit? a
    let b ← hexDigit? b
    let c ← hexDigit? c
    let d ← hexDigit? d
    return (((a * 16 + b) * 16 + c) * 16 + d, cs)
  | _ => none

/-- A character written as one code unit, or as two when the first is a leading surrogate. -/
def escaped? (cs : List Char) : Option (Char × List Char) := do
  let (u, cs) ← unit? cs
  if 0xD800 ≤ u && u < 0xDC00 then
    match cs with
    | '\\' :: 'u' :: cs =>
      let (v, cs) ← unit? cs
      if 0xDC00 ≤ v && v < 0xE000 then
        return (Char.ofNat (0x10000 + (u - 0xD800) * 0x400 + (v - 0xDC00)), cs)
      else none
    | _ => none
  else if 0xDC00 ≤ u && u < 0xE000 then none
  else return (Char.ofNat u, cs)

/-- The rest of a string after its opening quote; `fuel` bounds the characters read. -/
def stringRest : Nat → List Char → List Char → Option (String × List Char)
  | 0, _, _ => none
  | fuel + 1, acc, cs =>
    match cs with
    | '"' :: cs => some (String.ofList acc.reverse, cs)
    | '\\' :: 'u' :: cs =>
      match escaped? cs with
      | some (c, cs) => stringRest fuel (c :: acc) cs
      | none => none
    | '\\' :: e :: cs =>
      match e with
      | '"' => stringRest fuel ('"' :: acc) cs
      | '\\' => stringRest fuel ('\\' :: acc) cs
      | '/' => stringRest fuel ('/' :: acc) cs
      | 'b' => stringRest fuel ('\x08' :: acc) cs
      | 'f' => stringRest fuel ('\x0c' :: acc) cs
      | 'n' => stringRest fuel ('\n' :: acc) cs
      | 'r' => stringRest fuel ('\r' :: acc) cs
      | 't' => stringRest fuel ('\t' :: acc) cs
      | _ => none
    | c :: cs => if c.toNat < 0x20 then none else stringRest fuel (c :: acc) cs
    | [] => none

/-! ### Numbers -/

/-- The significand that the leading digits write as long as it fits into 64 bits, and the digits
that are left over. -/
def significand (start : Nat) : List Char → Nat × List Char
  | [] => (start, [])
  | d :: ds =>
    let next := 10 * start + (d.toNat - 48)
    if next < Number.wordBound then significand next ds else (start, d :: ds)

/-- Powers of ten up to the largest one with a pattern of its own. -/
def largestPower : Nat := 308

/-- The pattern of a power of ten. -/
def powerOfTen (n : Nat) : Nat := Binary64.ofDecimal 1 n

/-- A pattern times ten to the given power, scaled in steps that stay in range. -/
def scaled : Nat → Nat → Int → Nat
  | 0, pattern, _ => pattern
  | fuel + 1, pattern, exponent =>
    if pattern = 0 then 0
    else if exponent.natAbs ≤ largestPower then
      if 0 ≤ exponent then Binary64.times pattern (powerOfTen exponent.natAbs)
      else Binary64.quotient pattern (powerOfTen exponent.natAbs)
    else if 0 ≤ exponent then Binary64.infinity
    else scaled fuel (Binary64.quotient pattern (powerOfTen largestPower)) (exponent + largestPower)

/-- The floating-point number with the given digits before and after the point. -/
def floatOf (negative : Bool) (whole part : List Char) (exponent : Int) : Binary64 :=
  let (s, extra) := significand 0 whole
  let (s, dropped) := significand s part
  let power := exponent + extra.length - (part.length - dropped.length : Nat)
  ⟨negative, scaled 8 (Binary64.roundFraction s 1) power⟩

/-- The exponent of a number and what follows it. -/
def exponentPart (cs : List Char) : Option (Option Int × List Char) :=
  match cs with
  | c :: rest =>
    if c == 'e' || c == 'E' then
      let (negative, rest) := Number.signed rest
      let (ds, rest) := rest.span Number.isDigit
      if ds.isEmpty then none
      else
        let n : Int := Number.ofDigits ds
        some (some (if negative then -n else n), rest)
    else some (none, cs)
  | [] => some (none, [])

/-- The digits after the point of a number and what follows them. -/
def fractionPart (cs : List Char) : Option (Option (List Char) × List Char) :=
  match cs with
  | '.' :: rest =>
    let (ds, rest) := rest.span Number.isDigit
    if ds.isEmpty then none else some (some ds, rest)
  | _ => some (none, cs)

/-- A number and what follows it. -/
def number? (cs : List Char) : Option (Json × List Char) := do
  let (negative, cs) :=
    match cs with
    | '-' :: rest => (true, rest)
    | _ => (false, cs)
  let (whole, cs) := cs.span Number.isDigit
  if whole.isEmpty || (whole.length != 1 && whole.head? == some '0') then none
  else
    let (part, cs) ← fractionPart cs
    let (exponent, cs) ← exponentPart cs
    let n := Number.ofDigits whole
    if part.isSome || exponent.isSome then
      return (.float (floatOf negative whole (part.getD []) (exponent.getD 0)), cs)
    else if negative then
      if 0 < n && n ≤ Number.signedBound then return (.int (-(n : Int)), cs)
      else return (.float (floatOf true whole [] 0), cs)
    else if n < Number.wordBound then return (.int n, cs)
    else return (.float (floatOf false whole [] 0), cs)

/-! ### Values -/

/-- The text after the spaces at its start. -/
def afterSpace (cs : List Char) : List Char :=
  cs.dropWhile fun c => c == ' ' || c == '\t' || c == '\n' || c == '\r'

/-- A fixed word and what follows it. -/
def word? (w : String) (value : Json) (cs : List Char) : Option (Json × List Char) :=
  if cs.take w.length == w.toList then some (value, cs.drop w.length) else none

mutual

/-- A value and what follows it; `fuel` bounds the tokens read. -/
def value? : Nat → List Char → Option (Json × List Char)
  | 0, _ => none
  | fuel + 1, cs =>
    match afterSpace cs with
    | '"' :: rest => (stringRest (rest.length + 1) [] rest).map fun (s, cs) => (.str s, cs)
    | '[' :: rest =>
      match afterSpace rest with
      | ']' :: cs => some (.arr [], cs)
      | cs => items? fuel [] cs
    | '\x7b' :: rest =>
      match afterSpace rest with
      | '\x7d' :: cs => some (.obj [], cs)
      | cs => members? fuel [] cs
    | 'n' :: rest => word? "null" .null ('n' :: rest)
    | 't' :: rest => word? "true" (.bool true) ('t' :: rest)
    | 'f' :: rest => word? "false" (.bool false) ('f' :: rest)
    | cs => number? cs

/-- The rest of an array. -/
def items? : Nat → List Json → List Char → Option (Json × List Char)
  | 0, _, _ => none
  | fuel + 1, acc, cs =>
    match value? fuel cs with
    | some (j, cs) =>
      match afterSpace cs with
      | ',' :: cs => items? fuel (j :: acc) cs
      | ']' :: cs => some (.arr (j :: acc).reverse, cs)
      | _ => none
    | none => none

/-- The rest of an object. -/
def members? : Nat → List (String × Json) → List Char → Option (Json × List Char)
  | 0, _, _ => none
  | fuel + 1, acc, cs =>
    match afterSpace cs with
    | '"' :: rest =>
      match stringRest (rest.length + 1) [] rest with
      | some (k, cs) =>
        match afterSpace cs with
        | ':' :: cs =>
          match value? fuel cs with
          | some (j, cs) =>
            match afterSpace cs with
            | ',' :: cs => members? fuel ((k, j) :: acc) cs
            | '\x7d' :: cs => some (.obj ((k, j) :: acc).reverse, cs)
            | _ => none
          | none => none
        | _ => none
      | none => none
    | _ => none

end

/-- The value that a whole text writes. -/
def parse? (s : String) : Option Json :=
  let cs := s.toList
  match value? (cs.length + 1) cs with
  | some (j, rest) => if (afterSpace rest).isEmpty then some j else none
  | none => none

end FlowAnalysis.Json
