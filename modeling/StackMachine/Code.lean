import StackMachine.Text.Blank

/-! Programs as sequences of tokens. -/
namespace StackMachine

/-- The tokens of a program, not yet read as instructions. -/
structure Code where
  tokens : List String
deriving DecidableEq, Repr

namespace Code

/-- The words of a text. -/
def ofText (text : String) : Code := ⟨Text.words text⟩

/-- The tokens with single spaces between them. -/
def text (c : Code) : String := String.intercalate " " c.tokens

/-- Adds a token at the end. -/
def push (c : Code) (token : String) : Code := ⟨c.tokens ++ [token]⟩

end Code
end StackMachine
