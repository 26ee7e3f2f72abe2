import StackMachine.Instruction

/-! The place of a run in its program. -/
namespace StackMachine

/-- A program, the position in it, and the position where the next advance lands if a jump was
asked for. -/
structure Cursor where
  program : Program := #[]
  position : Nat := 0
  landing : Option Nat := none
deriving DecidableEq

namespace Cursor

/-- A cursor at the start of a program. -/
def load (program : Program) : Cursor := { program }

/-- The number of instructions. -/
def length (c : Cursor) : Nat := c.program.size

def isFinished (c : Cursor) : Bool := c.length ≤ c.position

/-- The instruction at the position. -/
def current? (c : Cursor) : Option Instruction := c.program[c.position]?

/-- Moves to where a jump lands, or to the next instruction. -/
def advance (c : Cursor) : Cursor :=
  { c with position := min (c.landing.getD (c.position + 1)) c.length, landing := none }

/-- Passes over one instruction. -/
def skip (c : Cursor) : Cursor := { c with position := min (c.position + 1) c.length }

/-- Makes the next advance land on a target; targets past the end are ignored. -/
def jumpTo (c : Cursor) (target : Nat) : Cursor :=
  if target ≤ c.length then { c with landing := some target } else c

/-- Moves past the last instruction and stays there. -/
def finish (c : Cursor) : Cursor := { c with position := c.length, landing := some c.length }

@[simp] theorem program_advance (c : Cursor) : c.advance.program = c.program := rfl

@[simp] theorem landing_advance (c : Cursor) : c.advance.landing = none := rfl

@[simp] theorem program_skip (c : Cursor) : c.skip.program = c.program := rfl

@[simp] theorem program_finish (c : Cursor) : c.finish.program = c.program := rfl

@[simp] theorem program_jumpTo (c : Cursor) (target : Nat) :
    (c.jumpTo target).program = c.program := by
  unfold jumpTo
  split <;> rfl

theorem position_advance_le (c : Cursor) : c.advance.position ≤ c.length := Nat.min_le_right _ _

/-- There is an instruction at hand exactly before the end of the program. -/
theorem current?_eq_none_iff {c : Cursor} : c.current? = none ↔ c.length ≤ c.position :=
  Array.getElem?_eq_none_iff

theorem position_lt_of_current? {c : Cursor} {i : Instruction} (h : c.current? = some i) :
    c.position < c.length := (Array.getElem?_eq_some_iff.mp h).1

end Cursor
end StackMachine
