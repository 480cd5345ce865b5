import FlowAnalysis.Json.Basic

/-!
# Writing JSON

The text has no spaces and no line breaks of any kind: control characters and the characters that
end a line are escaped.  A floating-point number is written exactly, as a whole number and a power
of ten.
-/

namespace FlowAnalysis.Json

/-- A code unit as an escape. -/
def escapeUnit (n : Nat) : List Char :=
  let digits := Nat.toDigits 16 n
  '\\' :: 'u' :: (List.replicate (4 - digits.length) '0' ++ digits)

/-- A character inside a string. -/
def escapeChar (c : Char) : List Char :=
  if c == '"' then ['\\', '"']
  else if c == '\\' then ['\\', '\\']
  else if c.toNat < 0x20 || c.toNat == 0x7F || c.toNat == 0x85 || c.toNat == 0x2028
      || c.toNat == 0x2029 then
    escapeUnit c.toNat
  else [c]

/-- A string in quotes. -/
def quoted (s : String) : String := String.ofList ('"' :: (s.toList.flatMap escapeChar ++ ['"']))

/-- A floating-point number; one that is not finite has no number and is written as `null`. -/
def floatText (x : Binary64) : String :=
  if x.isFinite then
    let (num, den) := Binary64.fraction x.magnitude
    let k := den.log2
    (if x.negative then "-" else "") ++ toString (num * Nat.pow 5 k) ++ "e-" ++ toString k
  else "null"

mutual

/-- The text of a value. -/
def render : Json → String
  | .null => "null"
  | .bool b => if b then "true" else "false"
  | .int n => toString n
  | .float x => floatText x
  | .str s => quoted s
  | .arr items => "[" ++ ",".intercalate (renderItems items) ++ "]"
  | .obj members => "\x7b" ++ ",".intercalate (renderMembers members) ++ "\x7d"

/-- The texts of the values of a list. -/
def renderItems : List Json → List String
  | [] => []
  | j :: js => render j :: renderItems js

/-- The texts of the members of an object. -/
def renderMembers : List (String × Json) → List String
  | [] => []
  | (k, j) :: js => (quoted k ++ ":" ++ render j) :: renderMembers js

end

end FlowAnalysis.Json
