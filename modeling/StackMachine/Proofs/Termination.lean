import StackMachine.Proofs.Rounds
import StackMachine.Random.Script

/-! Every execution ends, within a number of rounds that the fuse and the program bound. -/
namespace StackMachine
namespace Machine
variable {σ : Type} [RandomSource σ]

/-- What holds at the head of the loop: the program is the one that was loaded, the position lies
in it or at its end, and no jump is pending. -/
structure InProgram (program : Program) (m : Machine Empty) : Prop where
  program_eq : m.cursor.program = program
  position_le : m.cursor.position ≤ program.size
  landing_eq : m.cursor.landing = none

/-- An advance makes good whatever the instruction before it did to the position. -/
theorem InProgram.of_advance {program : Program} {c : Cursor} {m : Machine Empty}
    (hc : c.program = program) (hm : m.cursor = c.advance) : InProgram program m := by
  have hle := c.position_advance_le
  rw [Cursor.length, hc] at hle
  rw [← hm] at hle
  exact ⟨by rw [hm, Cursor.program_advance, hc], hle, by rw [hm, Cursor.landing_advance]⟩

theorem InProgram.pass {program : Program} {m : Machine Empty} (h : InProgram program m) :
    InProgram program m.pass := .of_advance h.program_eq rfl

theorem InProgram.turn {program : Program} {m : Machine Empty} (h : InProgram program m)
    (i : Instruction) (source : σ) : InProgram program (m.turn i source).1 :=
  .of_advance ((program_perform m i source).trans h.program_eq) rfl

theorem InProgram.round {program : Program} (fuse : Nat) (s : Machine Empty × σ)
    (h : InProgram program s.1) : InProgram program (round fuse s).state.1 :=
  round_preserves (P := fun s => InProgram program s.1) (fun _ _ h => h.pass)
    (fun _ source i _ h => h.turn i source) fuse s h

/-- Past the last instruction the position is the length of the program. -/
theorem InProgram.position_eq {program : Program} {m : Machine Empty} (h : InProgram program m)
    (hc : m.cursor.current? = none) : m.cursor.position = program.size := by
  have hl := Cursor.current?_eq_none_iff.mp hc
  rw [Cursor.length, h.program_eq] at hl
  exact Nat.le_antisymm h.position_le hl

/-- Without a pending jump, passing over an instruction moves on by one. -/
theorem InProgram.position_pass {program : Program} {m : Machine Empty} {i : Instruction}
    (h : InProgram program m) (hc : m.cursor.current? = some i) :
    m.pass.cursor.position = m.cursor.position + 1 := by
  have hp := Cursor.position_lt_of_current? hc
  have hl : m.pass.cursor.position = min (m.cursor.landing.getD (m.cursor.position + 1))
      m.cursor.length := rfl
  rw [hl, h.landing_eq, Option.getD_none]
  omega

/-- The count never exceeds the fuse at the head of the loop, and between two counted rounds there
are no more free ones than the program has instructions. -/
theorem Reaches.rounds_le {fuse n : Nat} {program : Program} {start s : Machine Empty × σ}
    (h : Reaches fuse start n s) (hp : InProgram program start.1) (h0 : start.1.executed = 0) :
    s.1.executed ≤ fuse ∧ n ≤ s.1.executed * (program.size + 1) + s.1.cursor.position := by
  induction h with
  | refl => exact ⟨by omega, by omega⟩
  | @next n s t hs hr ih =>
    obtain ⟨hfuse, hn⟩ := ih
    have hin : InProgram program s.1 := hs.invariant (InProgram.round fuse) hp
    obtain ⟨-, h⟩ | ⟨i, hc, -, h⟩ | ⟨i, -, -, -, h⟩ | ⟨i, -, -, hf, h⟩ := round_cases fuse s
    · cases h.symm.trans hr
    · cases h.symm.trans hr
      have hpos := hin.position_pass hc
      have hx : s.1.pass.executed = s.1.executed := rfl
      exact ⟨hfuse, by rw [hpos, hx]; omega⟩
    · cases h.symm.trans hr
    · cases h.symm.trans hr
      have hx : (s.1.turn i s.2).1.executed = s.1.executed + 1 := rfl
      have hle := hin.position_le
      refine ⟨hf, ?_⟩
      -- Wherever the verb leads, one more instruction is worth the way through the whole program.
      rw [hx, Nat.succ_mul]
      omega

/-- A round counts at most one instruction. -/
theorem executed_round_le (fuse : Nat) (s : Machine Empty × σ) :
    (round fuse s).state.1.executed ≤ s.1.executed + 1 := by
  obtain ⟨-, h⟩ | ⟨i, -, -, h⟩ | ⟨i, -, -, -, h⟩ | ⟨i, -, -, -, h⟩ := round_cases fuse s
  · rw [h]; exact Nat.le_succ _
  · rw [h]; exact Nat.le_succ _
  · rw [h]; exact Nat.le_refl _
  · rw [h]; exact Nat.le_refl _

/-- The loop ends at the end of the program or with more instructions than the fuse allows. -/
theorem round_over {fuse : Nat} {s t : Machine Empty × σ} (h : round fuse s = .over t) :
    t.1.cursor.current? = none ∨ fuse < t.1.executed := by
  obtain ⟨hc, hr⟩ | ⟨i, -, -, hr⟩ | ⟨i, -, -, hf, hr⟩ | ⟨i, -, -, -, hr⟩ := round_cases fuse s
  · cases hr.symm.trans h
    exact .inl hc
  · cases hr.symm.trans h
  · cases hr.symm.trans h
    exact .inr hf
  · cases hr.symm.trans h

end Machine

namespace Interpreter
open Machine
section
variable {σ : Type}

theorem start_inProgram (i : Interpreter σ) (program : Program) (state : Option Snapshot) :
    InProgram program (i.start program state).1 := ⟨rfl, Nat.zero_le _, rfl⟩

theorem start_executed (i : Interpreter σ) (program : Program) (state : Option Snapshot) :
    (i.start program state).1.executed = 0 := by
  cases state with
  | none => rfl
  | some state => exact executed_seed _ state

end

variable {σ : Type} [RandomSource σ]

theorem Visits.inProgram {i : Interpreter σ} {program : Program} {state : Option Snapshot} {n : Nat}
    {s : Machine Empty × σ} (h : i.Visits program state n s) : InProgram program s.1 :=
  Reaches.invariant (InProgram.round i.fuse) h (i.start_inProgram program state)

/-- Every execution ends. No round of it takes the count of instructions past the fuse by more than
one, so a word that can hold the fuse and one more can hold the count. -/
theorem execute_within_fuse (i : Interpreter σ) (program : Program) (state : Option Snapshot)
    (hfuse : i.options.maxInstructions.toNat < UInt64.size - 1) :
    (∃ n last, i.Visits program state n last ∧ round i.fuse last = .over (i.result program state)) ∧
    (∀ n s, i.Visits program state n s → n ≤ i.fuse * (program.size + 1) + program.size ∧
      (round i.fuse s).state.1.executed < UInt64.size) ∧
    let m := (i.execute program state).value.1
    m.cursor.program = program ∧ m.cursor.position ≤ m.cursor.length ∧
      m.executed ≤ i.options.maxInstructions.toNat + 1 ∧
      (m.cursor.position = m.cursor.length ∨ m.executed = i.options.maxInstructions.toNat + 1) := by
  have hbound (n : Nat) (s : Machine Empty × σ) (h : i.Visits program state n s) :=
    Reaches.rounds_le h (i.start_inProgram program state) (i.start_executed program state)
  obtain ⟨n, last, hn, hl⟩ := i.execute_ends program state
  refine ⟨⟨n, last, hn, hl⟩, ?_, ?_⟩
  · intro n s hs
    obtain ⟨hx, hle⟩ := hbound n s hs
    have hpos := hs.inProgram.position_le
    have hmul := Nat.mul_le_mul_right (program.size + 1) hx
    have hround := executed_round_le i.fuse s
    unfold fuse at *
    exact ⟨by omega, by omega⟩
  · intro m
    have hin : InProgram program m := by
      have h := InProgram.round i.fuse last hn.inProgram
      rwa [hl] at h
    have hle : m.executed ≤ i.fuse + 1 := by
      have h := executed_round_le i.fuse last
      rw [hl] at h
      exact Nat.le_trans h (Nat.succ_le_succ (hbound n last hn).1)
    have hlen : m.cursor.length = program.size := by rw [Cursor.length, hin.program_eq]
    refine ⟨hin.program_eq, hlen ▸ hin.position_le, hle, ?_⟩
    rcases round_over hl with hc | hc
    · exact .inl (hlen ▸ hin.position_eq hc)
    · exact .inr (Nat.le_antisymm hle hc)

/-- The bounds on a program that goes back to its start for ever. -/
theorem execute_within_fuse_endless :
    let i : Interpreter Script := (ofSource { maxInstructions := 5 } ⟨[], []⟩).value
    let program : Program := #[⟨.literal .integer, "0", 0⟩, ⟨.cursor "goto", "cursor.goto", 0⟩]
    let m := (i.execute program none).value.1
    i.options.maxInstructions.toNat < UInt64.size - 1 ∧
    m.cursor.program = program ∧ m.cursor.position ≤ m.cursor.length ∧ m.executed ≤ 5 + 1 ∧
      (m.cursor.position = m.cursor.length ∨ m.executed = 5 + 1) :=
  ⟨by decide, (execute_within_fuse _ _ _ (by decide)).2.2⟩

end Interpreter
end StackMachine
