/-! Floats as signed multiples of a power of two. -/
namespace StackMachine.Decimal

/-- The magnitude `mantissa * 2 ^ exponent`. -/
structure Binary where
  mantissa : Nat
  exponent : Int
deriving DecidableEq, Repr

/-- What a 64-bit float stands for. -/
inductive Reading where
  | nan
  | infinite (negative : Bool)
  | finite (negative : Bool) (magnitude : Binary)
deriving DecidableEq, Repr

/-- Number of mantissa bits that the bit pattern stores. -/
def storedBits : Nat := 52

/-- The mantissa bit that the bit pattern leaves out. -/
def leadingBit : Nat := Nat.pow 2 storedBits

/-- The sign in a bit pattern. -/
def signBit : Nat := Nat.pow 2 63

/-- The exponent field of infinities and NaNs. -/
def topExponent : Nat := 2047

/-- The exponent of the smallest positive float. -/
def leastExponent : Int := -1074

/-- Decodes the sign, exponent and mantissa fields of a bit pattern. -/
def Reading.ofBits (bits : Nat) : Reading :=
  let negative := bits / signBit % 2 = 1
  let biased := bits / leadingBit % (topExponent + 1)
  let fraction := bits % leadingBit
  if biased = topExponent then
    if fraction = 0 then .infinite negative else .nan
  else if biased = 0 then .finite negative ⟨fraction, leastExponent⟩
  else .finite negative ⟨leadingBit + fraction, leastExponent + (biased - 1 : Nat)⟩

/-- Decodes a float. -/
def Reading.ofFloat (x : Float) : Reading :=
  .ofBits x.toBits.toNat

/-- The bit pattern of a magnitude that a float holds with this mantissa and exponent. -/
def Binary.toBits (b : Binary) : Nat :=
  if b.mantissa < leadingBit then b.mantissa
  else (b.exponent - leastExponent + 1).toNat * leadingBit + (b.mantissa - leadingBit)

/-- The float of a sign and the bit pattern of its magnitude. -/
def floatOfBits (negative : Bool) (bits : Nat) : Float :=
  .ofBits (UInt64.ofNat (bits + if negative then signBit else 0))

/-- The same magnitude with the largest mantissa that a float stores, where the exponent allows. -/
def Binary.normalize (b : Binary) : Binary :=
  let shift := min (storedBits - b.mantissa.log2) (b.exponent - leastExponent).toNat
  ⟨b.mantissa * Nat.pow 2 shift, b.exponent - shift⟩

/-- The float of a sign and a magnitude that is exactly representable. -/
def Binary.toFloat (b : Binary) (negative : Bool) : Float :=
  floatOfBits negative (if b.mantissa = 0 then 0 else b.normalize.toBits)

/-- The magnitude as a quotient of natural numbers. -/
def Binary.quotient (b : Binary) : Nat × Nat :=
  (b.mantissa * Nat.pow 2 b.exponent.toNat, Nat.pow 2 (-b.exponent).toNat)

end StackMachine.Decimal
