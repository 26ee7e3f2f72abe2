import StackMachine.Element

/-! Instructions of a program. -/
namespace StackMachine

/-- What an instruction asks for. -/
inductive Command where
  /-- Push the token as a literal of a kind. -/
  | literal (kind : Kind)
  /-- Call an operation of a stack. -/
  | call (stack function : String)
  /-- Steer the cursor. -/
  | cursor (verb : String)
  /-- Nothing; it does not count as executed. -/
  | noop
deriving DecidableEq, Repr

/-- A command with the token it was read from. The number of runs is for the embedding program and
has no effect. -/
structure Instruction where
  command : Command
  token : String
  runs : UInt64 := 0
deriving DecidableEq, Repr

/-- The instruction that does nothing. -/
def Instruction.noop : Instruction := ⟨.noop, "", 0⟩

/-- A sequence of instructions. -/
abbrev Program := Array Instruction

end StackMachine
