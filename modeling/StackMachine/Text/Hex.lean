/-! Hexadecimal digits. -/
namespace StackMachine.Text

/-- The value of a hexadecimal digit. -/
def hexDigit? (c : Char) : Option Nat :=
  if c.isDigit then some (c.toNat - '0'.toNat)
  else if 'a' ≤ c ∧ c ≤ 'f' then some (c.toNat - 'a'.toNat + 10)
  else if 'A' ≤ c ∧ c ≤ 'F' then some (c.toNat - 'A'.toNat + 10)
  else none

/-- The number that digits of a base up to sixteen denote, the first digit being the highest. -/
def digitsIn? (base : Nat) (digits : List Char) : Option Nat :=
  digits.foldlM (fun n c => return n * base + (← hexDigit? c)) 0

end StackMachine.Text
