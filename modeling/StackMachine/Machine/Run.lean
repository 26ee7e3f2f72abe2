import StackMachine.Machine

/-! Running the program of a machine until it ends or a fuse trips. -/
namespace StackMachine
namespace Machine
variable {X σ : Type} [Host X] [RandomSource σ]

/-- Performs an instruction, moves on, and counts it. -/
def turn (m : Machine X) (i : Instruction) (source : σ) : Machine X × σ :=
  let (next, source) := m.perform i source
  ({ next with cursor := next.cursor.advance, executed := m.executed + 1 }, source)

/-- Moves past an instruction that does nothing. -/
def pass (m : Machine X) : Machine X := m.moveCursor Cursor.advance

/-- What bounds the turns that are left: the fuse, then a pending jump, then the way to the end. -/
def remaining (fuse : Nat) (m : Machine X) : Nat × Nat × Nat :=
  (fuse + 1 - m.executed, (if m.cursor.landing.isSome then 1 else 0),
    m.cursor.length - m.cursor.position)

omit [Host X] in
/-- Passing over an instruction uses up a pending jump or comes nearer to the end. -/
theorem remaining_pass_lt (fuse : Nat) {m : Machine X} {i : Instruction}
    (h : m.cursor.current? = some i) :
    Prod.Lex (· < ·) (Prod.Lex (· < ·) (· < ·)) (m.pass.remaining fuse) (m.remaining fuse) := by
  have hp : m.cursor.position < m.cursor.program.size := by
    rw [Cursor.current?] at h
    exact (Array.getElem?_eq_some_iff.mp h).1
  simp only [remaining, pass, moveCursor, Cursor.advance, Cursor.length]
  cases hl : m.cursor.landing with
  | none =>
    refine Prod.Lex.right _ (Prod.Lex.right _ ?_)
    simp only [Option.getD_none]
    omega
  | some t => exact Prod.Lex.right _ (Prod.Lex.left _ _ (by simp))

/-- A turn that the fuse lets through uses up a part of it. -/
theorem remaining_turn_lt {fuse : Nat} {m : Machine X} {i : Instruction} {source : σ}
    (h : ¬fuse < (m.turn i source).1.executed) :
    Prod.Lex (· < ·) (Prod.Lex (· < ·) (· < ·)) ((m.turn i source).1.remaining fuse)
      (m.remaining fuse) := by
  have hx : (m.turn i source).1.executed = m.executed + 1 := rfl
  exact Prod.Lex.left _ _ (by omega)

/-- Executes instructions until the cursor is past the last one or more than `fuse` instructions
were executed. Instructions that do nothing are free. -/
def run (fuse : Nat) (m : Machine X) (source : σ) : Machine X × σ :=
  match _h : m.cursor.current? with
  | none => (m, source)
  | some i =>
    if i.command = .noop then run fuse m.pass source
    else
      let next := m.turn i source
      if fuse < next.1.executed then next else run fuse next.1 next.2
termination_by remaining fuse m
decreasing_by
  · exact remaining_pass_lt fuse _h
  · exact remaining_turn_lt ‹_›

end Machine
end StackMachine
