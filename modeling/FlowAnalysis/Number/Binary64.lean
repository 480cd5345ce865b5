/-!
# Binary floating-point numbers

A `Binary64` is a 64-bit pattern: a sign, eleven bits of exponent and fifty-two bits of significand.
Every result is computed exactly on natural numbers and then rounded once, to the nearest pattern,
and from the middle between two patterns to the even one.
-/

namespace FlowAnalysis

/-- A binary floating-point number: its sign, and its magnitude as a bit pattern. -/
structure Binary64 where
  negative : Bool
  magnitude : Nat
  deriving DecidableEq, Repr, Inhabited

namespace Binary64

/-- The weight of the lowest bit of the exponent. -/
def exponentUnit : Nat := 0x10000000000000

/-- The weight of the sign bit. -/
def signUnit : Nat := 0x8000000000000000

/-- The pattern of infinity. -/
def infinity : Nat := 0x7FF * exponentUnit

/-- Whether a number is neither infinite nor not a number. -/
def isFinite (x : Binary64) : Bool := x.magnitude < infinity

/-- The quotient rounded to the nearest whole number, from the middle to the even one. -/
def roundDiv (num den : Nat) : Nat :=
  let q := num / den
  let r := num % den
  if 2 * r < den then q else if den < 2 * r then q + 1 else q + q % 2

/-- The exponent `e` with `2 ^ e ≤ num / den < 2 ^ (e + 1)`. -/
def exponentOf (num den : Nat) : Int :=
  let e : Int := (num.log2 : Int) - (den.log2 : Int)
  let fits : Bool :=
    if 0 ≤ e then den <<< e.toNat ≤ num else den ≤ num <<< (-e).toNat
  if fits then e else e - 1

/-- The pattern nearest to a fraction. -/
def roundFraction (num den : Nat) : Nat :=
  if num = 0 then 0
  else
    let unit : Int := max (exponentOf num den - 52) (-1074)
    let significand :=
      if 0 ≤ unit then roundDiv num (den <<< unit.toNat)
      else roundDiv (num <<< (-unit).toNat) den
    min (significand + (unit + 1074).toNat * exponentUnit) infinity

/-- The fraction that a finite pattern stands for. -/
def fraction (pattern : Nat) : Nat × Nat :=
  let exponent := pattern / exponentUnit
  if exponent = 0 then (pattern, 1 <<< 1074)
  else
    let significand := pattern % exponentUnit + exponentUnit
    if 1075 ≤ exponent then (significand <<< (exponent - 1075), 1)
    else (significand, 1 <<< (1075 - exponent))

/-- The product of two patterns, rounded. -/
def times (a b : Nat) : Nat :=
  if infinity ≤ a || infinity ≤ b then infinity
  else
    let (na, da) := fraction a
    let (nb, db) := fraction b
    roundFraction (na * nb) (da * db)

/-- The quotient of two patterns, rounded; the second is not zero. -/
def quotient (a b : Nat) : Nat :=
  if infinity ≤ a then infinity
  else
    let (na, da) := fraction a
    let (nb, db) := fraction b
    roundFraction (na * db) (da * nb)

/-- The pattern nearest to `digits * 10 ^ exponent`.  Exponents far outside the range are cut short
before any power is computed. -/
def ofDecimal (digits : Nat) (exponent : Int) : Nat :=
  if digits = 0 then 0
  else
    let size : Int := (Nat.toDigits 10 digits).length + exponent
    if 400 < size then infinity
    else if size < -400 then 0
    else if 0 ≤ exponent then roundFraction (digits * Nat.pow 10 exponent.toNat) 1
    else roundFraction digits (Nat.pow 10 (-exponent).toNat)

/-- The whole bit pattern. -/
def bits (x : Binary64) : Nat := (if x.negative then signUnit else 0) + x.magnitude

/-- The bit pattern as sixteen hexadecimal digits. -/
def hex (x : Binary64) : String :=
  let digits := Nat.toDigits 16 x.bits
  String.ofList (List.replicate (16 - digits.length) '0' ++ digits)

end Binary64

end FlowAnalysis
