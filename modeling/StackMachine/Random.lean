/-! Sources of random numbers as values that each draw replaces. -/
namespace StackMachine

/-- A source of random numbers with states in `σ`. -/
class RandomSource (σ : Type) where
  /-- Draws a number below a bound. -/
  intBelow : Nat → σ → Nat × σ
  /-- Draws a float from the unit interval. -/
  unitFloat : σ → Float × σ

namespace RandomSource
variable {σ : Type} [RandomSource σ]

/-- The bound of a random integer. -/
def integerRange : Nat := 10

/-- Draws the value of a random integer. -/
def randomInteger (source : σ) : Int64 × σ :=
  let (n, source) := intBelow integerRange source
  (Int64.ofNat n, source)

/-- Draws the value of a random float. -/
def randomFloat (source : σ) : Float × σ := unitFloat source

end RandomSource
end StackMachine
