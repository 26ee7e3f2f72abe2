import StackMachine.Decimal.Binary

/-! Rounding of quotients to the nearest natural number and to the nearest float. -/
namespace StackMachine.Decimal

/-- Which of two equally near numbers is taken. -/
inductive Tie where
  | up
  | even
deriving DecidableEq, Repr

/-- The natural number nearest to a quotient. -/
def roundDiv (tie : Tie) (num den : Nat) : Nat :=
  let below := num / den
  let rest := num % den
  if 2 * rest < den then below
  else if den < 2 * rest then below + 1
  else match tie with
    | .up => below + 1
    | .even => below + below % 2

/-- The `e` with `2 ^ e ≤ num / den < 2 ^ (e + 1)`, for a positive quotient. -/
def quotientLog (num den : Nat) : Int :=
  if den ≤ num then (num / den).log2
  else -(((den - 1) / num).log2 + 1 : Nat)

/-- The quotient rounded to the multiples of the gap between the floats around it. The mantissa
can be one more than a float stores, at the power of two above. -/
def Binary.ofQuotient (num den : Nat) : Binary :=
  let exponent := max leastExponent (quotientLog num den - storedBits)
  ⟨roundDiv .even (num * Nat.pow 2 (-exponent).toNat) (den * Nat.pow 2 exponent.toNat), exponent⟩

/-- The bit pattern of infinity. -/
def infinityBits : Nat := topExponent * leadingBit

/-- The bit pattern of the float nearest to a quotient. Patterns ascend with the magnitudes, so
whatever lies above infinity is infinity. -/
def nearestBits (num den : Nat) : Nat :=
  min (Binary.ofQuotient num den).toBits infinityBits

end StackMachine.Decimal
