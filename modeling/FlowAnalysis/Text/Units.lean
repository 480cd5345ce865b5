/-!
# UTF-16 code units and their hash

A character outside the basic plane counts as two units.  The hash of a text folds its units with
the multiplier 31 in signed 32-bit arithmetic.
-/

namespace FlowAnalysis.Text

/-- The UTF-16 code units of a character. -/
def unitsOf (c : Char) : List Nat :=
  let n := c.toNat
  if n < 0x10000 then [n]
  else [0xD800 + (n - 0x10000) / 0x400, 0xDC00 + (n - 0x10000) % 0x400]

/-- The UTF-16 code units of a text. -/
def units (s : String) : List Nat := s.toList.flatMap unitsOf

/-- One step of the hash: multiply by 31 as a shift and a subtraction, then add the unit. -/
def hashStep (h : Int32) (unit : Nat) : Int32 := (h <<< 5) - h + Int32.ofNat unit

/-- The hash of a text, a signed 32-bit number. -/
def hash (s : String) : Int32 := (units s).foldl hashStep 0

/-- The hash of a text as an id between 100000 and 999999. -/
def hashId (s : String) : Int := 100000 + ((hash s).toInt.natAbs % 900000 : Nat)

end FlowAnalysis.Text
