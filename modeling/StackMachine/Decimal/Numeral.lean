import StackMachine.Decimal.Rounding

/-! Decimal numerals and the floats and integers they denote. -/
namespace StackMachine.Decimal

/-- The longest prefix of digits and what follows it. -/
def spanDigits (cs : List Char) : List Char × List Char :=
  (cs.takeWhile Char.isDigit, cs.dropWhile Char.isDigit)

/-- The natural number that a digit string denotes. -/
def digitsValue (digits : List Char) : Nat :=
  Nat.ofDigitChars 10 digits 0

/-- A nonempty run of digits. -/
def isDigits (cs : List Char) : Bool :=
  !cs.isEmpty && cs.all Char.isDigit

/-- The number `± digits * 10 ^ scale`. -/
structure Numeral where
  negative : Bool
  digits : Nat
  scale : Int
deriving DecidableEq, Repr

/-- The numeral with the given whole digits, fraction digits and exponent. -/
def Numeral.ofParts (negative : Bool) (whole fraction : List Char) (exponent : Int) : Numeral :=
  ⟨negative, digitsValue (whole ++ fraction), exponent - fraction.length⟩

/-- A scale past which every positive numeral is out of range. -/
def scaleLimit : Nat := 400

/-- The bit pattern of the magnitude of a numeral, rounded to the nearest float. Powers of ten that
decide the answer by their size alone are not computed. -/
def Numeral.magnitudeBits (n : Numeral) : Nat :=
  if n.digits = 0 then 0
  else if (scaleLimit : Int) < n.scale then infinityBits
  else if n.scale < -(scaleLimit + n.digits.log2 : Nat) then 0
  else nearestBits (n.digits * Nat.pow 10 n.scale.toNat) (Nat.pow 10 (-n.scale).toNat)

/-- The nearest float, ties to even; infinite when the number is out of range. -/
def Numeral.toFloat (n : Numeral) : Float := floatOfBits n.negative n.magnitudeBits

/-- Removes one sign from the front and reports whether it was a minus. -/
def takeSign : List Char → Bool × List Char
  | '-' :: cs => (true, cs)
  | '+' :: cs => (false, cs)
  | cs => (false, cs)

/-- An exponent part that ends the text: `e` or `E`, a sign, digits. No text is exponent zero. -/
def exponent? : List Char → Option Int
  | [] => some 0
  | c :: cs =>
    if c = 'e' || c = 'E' then
      let (negative, digits) := takeSign cs
      if isDigits digits then
        let n : Int := digitsValue digits
        some (if negative then -n else n)
      else none
    else none

/-- An unsigned decimal: digits with at most one point among or beside them, then an exponent. -/
def unsigned? (negative : Bool) (cs : List Char) : Option Numeral :=
  let (whole, rest) := spanDigits cs
  match rest with
  | '.' :: rest =>
    let (fraction, rest) := spanDigits rest
    if whole.isEmpty && fraction.isEmpty then none
    else (exponent? rest).map (Numeral.ofParts negative whole fraction)
  | rest =>
    if whole.isEmpty then none
    else (exponent? rest).map (Numeral.ofParts negative whole [])

/-- Reads a float: an optional sign, then a decimal, `inf`, `infinity` or `nan` in any case. -/
def float? (text : String) : Option Float :=
  let (negative, cs) := takeSign text.toList
  let special (x : Float) : Float := if negative then -x else x
  let name := cs.map Char.toLower
  if name = "inf".toList || name = "infinity".toList then some (special (1.0 / 0.0))
  else if name = "nan".toList then some (special (0.0 / 0.0))
  else (unsigned? negative cs).map Numeral.toFloat

/-- Reads an integer: an optional sign, then digits. -/
def integer? (text : String) : Option Int :=
  let (negative, cs) := takeSign text.toList
  if isDigits cs then
    let n : Int := digitsValue cs
    some (if negative then -n else n)
  else none

/-- The 64-bit integer of this value, if it is in range. -/
def int64? (n : Int) : Option Int64 :=
  if Int64.minValue.toInt ≤ n ∧ n ≤ Int64.maxValue.toInt then some (Int64.ofInt n) else none

end StackMachine.Decimal
