import StackMachine.Decimal.Numeral

/-! The floats of the numbers in JSON texts. The digits of a number make a significand of one word,
which is rounded to a float and then multiplied or divided by a power of ten that is rounded too.
With more than one rounding the result need not be the float nearest to the number. This is the way
of the JSON library that machines rely on, as it is set up there; nothing else is assumed of it
about floats. Its exponents are words of 32 bits that saturate. Those here are exact, which makes no
difference to texts of less than `2 ^ 30` characters. -/
namespace StackMachine.Json
open Decimal

/-- A number as it is written. -/
structure NumberParts where
  negative : Bool
  whole : List Char
  fraction : Option (List Char)
  exponent : Option Int
deriving DecidableEq, Repr

/-- Whether a number is written without fraction and exponent. -/
def NumberParts.isWhole (p : NumberParts) : Bool := p.fraction.isNone && p.exponent.isNone

/-- Appends digits to a significand as long as it fits a word. Returns the digits from the first one
that does not fit. -/
def appendDigits (significand : Nat) : List Char → Nat × List Char
  | [] => (significand, [])
  | c :: cs =>
    let next := Nat.ofDigitChars 10 [c] significand
    if next < UInt64.size then appendDigits next cs else (significand, c :: cs)

/-- The number `significand * 10 ^ exponent`. -/
structure Scaled where
  significand : Nat
  exponent : Int
deriving DecidableEq, Repr

/-- Whole digits that do not fit the significand count as zeros, and such digits of the fraction are
left out. -/
def NumberParts.scaled (p : NumberParts) : Scaled :=
  let fraction := p.fraction.getD []
  let (whole, beyond) := appendDigits 0 p.whole
  let (significand, dropped) := appendDigits whole fraction
  ⟨significand, beyond.length - (fraction.length - dropped.length) + p.exponent.getD 0⟩

/-- The float nearest to a natural number. -/
def floatOfNat (n : Nat) : Float := floatOfBits false (nearestBits n 1)

/-- The greatest exponent of a power of ten that is a finite float. -/
def greatestPower : Nat := 308

/-- A power of ten as a float. -/
def powerOfTen (exponent : Nat) : Float := floatOfNat (Nat.pow 10 exponent)

/-- Divides a float by the greatest power of ten so many times, or until nothing is left of it. -/
def divideTimes : Nat → Float → Float
  | 0, x => x
  | n + 1, x => if x == 0.0 then x else divideTimes n (x / powerOfTen greatestPower)

/-- The float of a significand times a power of ten, none if it is out of range. -/
def Scaled.toFloat? (s : Scaled) : Option Float :=
  let x := floatOfNat s.significand
  let power := s.exponent.natAbs
  if 0 ≤ s.exponent then
    if power ≤ greatestPower then
      let y := x * powerOfTen power
      if y.isInf then none else some y
    else if x == 0.0 then some x
    else none
  else
    let times := (power - 1) / greatestPower
    some (divideTimes times x / powerOfTen (power - times * greatestPower))

/-- The float of a number, none if it is out of range. -/
def NumberParts.float? (p : NumberParts) : Option Float :=
  p.scaled.toFloat?.map fun x => if p.negative then -x else x

end StackMachine.Json
