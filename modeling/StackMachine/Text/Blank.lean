/-! Blank characters and the words they separate. -/
namespace StackMachine.Text

/-- The code points with the Unicode property `White_Space`, as closed ranges. -/
def blankRanges : List (Nat × Nat) :=
  [(0x9, 0xD), (0x20, 0x20), (0x85, 0x85), (0xA0, 0xA0), (0x1680, 0x1680), (0x2000, 0x200A),
   (0x2028, 0x2029), (0x202F, 0x202F), (0x205F, 0x205F), (0x3000, 0x3000)]

/-- Membership in `White_Space`. -/
def isBlank (c : Char) : Bool :=
  blankRanges.any fun r => r.1 ≤ c.toNat && c.toNat ≤ r.2

/-- The stretches between single blanks, empty ones included. -/
def pieces : List Char → List (List Char)
  | [] => [[]]
  | c :: cs =>
    if isBlank c then [] :: pieces cs
    else match pieces cs with
      | [] => [[c]]
      | w :: ws => (c :: w) :: ws

/-- The maximal blank-free stretches of a text, from left to right. -/
def words (text : String) : List String :=
  ((pieces text.toList).filter (!·.isEmpty)).map String.ofList

end StackMachine.Text
