import StackMachine.Random

/-! A source that plays back given draws. -/
namespace StackMachine

/-- Draws still to come; zeros follow once they are used up. -/
structure Script where
  integers : List Nat
  floats : List Float
deriving DecidableEq

namespace Script

/-- The next integer, reduced below the bound. -/
def intBelow (bound : Nat) (s : Script) : Nat × Script :=
  match s.integers with
  | [] => (0, s)
  | n :: rest => (n % bound, { s with integers := rest })

/-- The next float as it stands. -/
def unitFloat (s : Script) : Float × Script :=
  match s.floats with
  | [] => (0.0, s)
  | x :: rest => (x, { s with floats := rest })

instance : RandomSource Script := ⟨intBelow, unitFloat⟩

end Script
end StackMachine
