import StackMachine.Decimal.Rounding

/-! Arithmetic on floats that the standard operators leave out. -/
namespace StackMachine.Arithmetic
open Decimal

/-- The exact remainder of two magnitudes; it is below the divisor and no finer than either. -/
def remainder (a b : Binary) : Binary :=
  let exponent := min a.exponent b.exponent
  let scale (c : Binary) : Nat := c.mantissa * Nat.pow 2 (c.exponent - exponent).toNat
  ⟨scale a % scale b, exponent⟩

/-- The remainder of truncated division, with the sign of the dividend. -/
def floatRemainder (x y : Float) : Float :=
  match Reading.ofFloat x, Reading.ofFloat y with
  | .nan, _ | _, .nan | .infinite _, _ => 0.0 / 0.0
  | .finite _ _, .infinite _ => x
  | .finite negative a, .finite _ b =>
    if b.mantissa = 0 then 0.0 / 0.0 else (remainder a b).toFloat negative

/-- The lesser of two floats; a NaN gives way to the other operand. -/
def floatMin (x y : Float) : Float :=
  if x.isNaN then y else if y < x then y else x

/-- The greater of two floats; a NaN gives way to the other operand. -/
def floatMax (x y : Float) : Float :=
  if x.isNaN then y else if x < y then y else x

/-- Truncates toward zero and saturates at the integer bounds; a NaN becomes zero. -/
def integerOfFloat (x : Float) : Int64 :=
  match Reading.ofFloat x with
  | .nan => 0
  | .infinite false => Int64.maxValue
  | .infinite true => Int64.minValue
  | .finite negative b =>
    let (num, den) := b.quotient
    let whole : Int := (num / den : Nat)
    if negative then Int64.ofInt (max (-whole) Int64.minValue.toInt)
    else Int64.ofInt (min whole Int64.maxValue.toInt)

/-- The nearest float to an integer, ties to even. -/
def floatOfInteger (n : Int64) : Float :=
  floatOfBits (n.toInt < 0) (nearestBits n.toInt.natAbs 1)

end StackMachine.Arithmetic
