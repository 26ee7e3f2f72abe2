import StackMachine.Decimal.Rounding

/-! The shortest decimal that rounds to a given float. -/
namespace StackMachine.Decimal

/-- The decimal `d₁.d₂d₃… * 10 ^ exponent`; no digits stand for zero. -/
structure Scientific where
  digits : List Char
  exponent : Int
deriving DecidableEq, Repr

/-- A float and the reals that round to it, as multiples of one unit, over a decimal grid whose
step is a multiple of the same unit. -/
structure Window where
  low : Nat
  value : Nat
  high : Nat
  step : Nat
  closed : Bool

/-- Whether the multiple `n` of the grid step rounds to the float. -/
def Window.contains (w : Window) (n : Nat) : Bool :=
  if w.closed then w.low ≤ n * w.step && n * w.step ≤ w.high
  else w.low < n * w.step && n * w.step < w.high

/-- The grid multiple below the value, or the one above it, whichever is nearer. -/
def Window.nearest (w : Window) (tie : Tie) : Nat := roundDiv tie w.value w.step

/-- The neighbour of the value on the grid that rounds to the float, the nearer one if both do. -/
def Window.pick? (w : Window) (tie : Tie) : Option Nat :=
  let below := w.value / w.step
  match w.contains below, w.contains (below + 1) with
  | true, true => some (w.nearest tie)
  | true, false => some below
  | false, true => some (below + 1)
  | false, false => none

/-- The rounding window of a positive magnitude over the grid of multiples of `10 ^ grid`. The gap
below a power of two is half the gap above it. -/
def Binary.window (b : Binary) (grid : Int) : Window :=
  let scale := Nat.pow 2 b.exponent.toNat * Nat.pow 10 (-grid).toNat
  let narrow := b.mantissa = leadingBit && b.exponent ≠ leastExponent
  { low := (4 * b.mantissa - if narrow then 1 else 2) * scale
    value := 4 * b.mantissa * scale
    high := (4 * b.mantissa + 2) * scale
    step := 4 * Nat.pow 2 (-b.exponent).toNat * Nat.pow 10 grid.toNat
    closed := b.mantissa % 2 = 0 }

/-- The number of decimal digits of a natural number. -/
def digitCount (n : Nat) : Nat :=
  (Nat.toDigits 10 n).length

/-- The `e` with `10 ^ e ≤ b < 10 ^ (e + 1)`. -/
def Binary.decimalExponent (b : Binary) : Int :=
  let (num, den) := b.quotient
  if num < den then -(digitCount ((den - 1) / num) : Int)
  else (digitCount (num / den) : Int) - 1

/-- The most digits that a float needs. -/
def maxDigits : Nat := 17

/-- Tries grids of growing fineness, from `count` digits on; the finest grid always answers. -/
def Binary.search (b : Binary) (tie : Tie) (top : Int) (count : Nat) : Nat → Nat × Int
  | 0 =>
    let grid := top - (count : Int) + 1
    ((b.window grid).nearest tie, grid)
  | left + 1 =>
    let grid := top - (count : Int) + 1
    match (b.window grid).pick? tie with
    | some n => (n, grid)
    | none => b.search tie top (count + 1) left

/-- Removes the zeros at the end of a digit string. -/
def trimZeros (digits : List Char) : List Char :=
  (digits.reverse.dropWhile (· = '0')).reverse

/-- The decimal with the fewest digits among those that round to the magnitude, and the nearest to
it of these. -/
def Binary.shortest (b : Binary) (tie : Tie) : Scientific :=
  if b.mantissa = 0 then ⟨[], 0⟩
  else
    let (n, grid) := b.search tie b.decimalExponent 1 (maxDigits - 1)
    let digits := Nat.toDigits 10 n
    ⟨trimZeros digits, grid + digits.length - 1⟩

end StackMachine.Decimal
