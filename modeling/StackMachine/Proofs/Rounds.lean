import StackMachine.Interpreter

/-! The loop of a run, one round at a time. A run is the result of the first round that does not
lead to another one. -/
namespace StackMachine
namespace Machine
/-! What an instruction leaves alone. -/
section
variable {X σ : Type} [RandomSource σ]

theorem cursor_pop? {α : Type} [Carrier α] {m rest : Machine X} {a : α}
    (h : m.pop? α = some (a, rest)) : rest.cursor = m.cursor := by
  unfold pop? at h
  obtain ⟨p, -, hp⟩ := Option.map_eq_some_iff.mp h
  cases hp
  rfl

theorem program_whenTrue (m : Machine X) (move : Machine X → Machine X)
    (h : ∀ m, (move m).cursor.program = m.cursor.program) :
    (m.whenTrue move).cursor.program = m.cursor.program := by
  unfold whenTrue
  split
  · rename_i rest hp
    rw [h, cursor_pop? hp]
  · rename_i rest hp
    rw [cursor_pop? hp]
  · rfl

theorem program_jump (m : Machine X) : m.jump.cursor.program = m.cursor.program := by
  unfold jump
  split
  · rename_i target rest hp
    split
    · rw [moveCursor, Cursor.program_jumpTo, cursor_pop? hp]
    · rw [cursor_pop? hp]
  · rfl

theorem program_follow (m : Machine X) (verb : Verb) :
    (m.follow verb).cursor.program = m.cursor.program := by
  cases verb with
  | finish => exact m.cursor.program_finish
  | finishIf => exact program_whenTrue m _ fun m => m.cursor.program_finish
  | jump => exact program_jump m
  | jumpIf => exact program_whenTrue m _ program_jump
  | skipIf => exact program_whenTrue m _ fun m => m.cursor.program_skip

theorem program_steer (m : Machine X) (verb : String) :
    (m.steer verb).cursor.program = m.cursor.program := by
  unfold steer
  split
  · exact program_follow m _
  · rfl

/-- Calls of built-in operations do not touch the cursor. -/
theorem cursor_call (m : Machine Empty) (stack function : String) (source : σ) :
    (m.call stack function source).1.cursor = m.cursor := by
  unfold call
  split
  · rfl
  · rename_i op _
    exact nomatch op
  · rfl

theorem program_perform (m : Machine Empty) (i : Instruction) (source : σ) :
    (m.perform i source).1.cursor.program = m.cursor.program := by
  unfold perform
  split
  · rfl
  · rw [cursor_call]
  · exact program_steer m _
  · rfl

end

/-! The rounds. -/
section
variable {X σ : Type} [Host X] [RandomSource σ]

/-- What a round of the loop leads to: another round, or the end of the run. -/
inductive Outcome (X σ : Type) where
  | again (state : Machine X × σ)
  | over (state : Machine X × σ)

/-- The machine and the source after a round. -/
def Outcome.state : Outcome X σ → Machine X × σ
  | .again s => s
  | .over s => s

/-- One round of the loop. The fuse is looked at after instructions that count only. -/
def round (fuse : Nat) (s : Machine X × σ) : Outcome X σ :=
  match s.1.cursor.current? with
  | none => .over s
  | some i =>
    if i.command = .noop then .again (s.1.pass, s.2)
    else if fuse < (s.1.turn i s.2).1.executed then .over (s.1.turn i s.2)
    else .again (s.1.turn i s.2)

/-- What stands at the head of the loop after a number of rounds. -/
inductive Reaches (fuse : Nat) (start : Machine X × σ) : Nat → Machine X × σ → Prop where
  | refl : Reaches fuse start 0 start
  | next {n : Nat} {s t : Machine X × σ} : Reaches fuse start n s → round fuse s = .again t →
      Reaches fuse start (n + 1) t

/-- What a round can do: find the program at its end, pass over an instruction, or execute one. -/
theorem round_cases (fuse : Nat) (s : Machine X × σ) :
    (s.1.cursor.current? = none ∧ round fuse s = .over s) ∨
    (∃ i, s.1.cursor.current? = some i ∧ i.command = .noop ∧
      round fuse s = .again (s.1.pass, s.2)) ∨
    (∃ i, s.1.cursor.current? = some i ∧ i.command ≠ .noop ∧
      fuse < (s.1.turn i s.2).1.executed ∧ round fuse s = .over (s.1.turn i s.2)) ∨
    ∃ i, s.1.cursor.current? = some i ∧ i.command ≠ .noop ∧
      (s.1.turn i s.2).1.executed ≤ fuse ∧ round fuse s = .again (s.1.turn i s.2) := by
  unfold round
  cases hc : s.1.cursor.current? with
  | none => exact .inl ⟨rfl, rfl⟩
  | some i =>
    by_cases hi : i.command = .noop
    · exact .inr (.inl ⟨i, rfl, hi, if_pos hi⟩)
    · simp only [hi, if_false]
      by_cases hf : fuse < (s.1.turn i s.2).1.executed
      · exact .inr (.inr (.inl ⟨i, rfl, hi, hf, if_pos hf⟩))
      · exact .inr (.inr (.inr ⟨i, rfl, hi, Nat.not_lt.mp hf, if_neg hf⟩))

/-- What passing over an instruction and executing one preserve, a round preserves. -/
theorem round_preserves {P : Machine X × σ → Prop}
    (hpass : ∀ m source, P (m, source) → P (m.pass, source))
    (hturn : ∀ m source i, m.cursor.current? = some i → P (m, source) → P (m.turn i source))
    (fuse : Nat) (s : Machine X × σ) (hs : P s) : P (round fuse s).state := by
  obtain ⟨-, hr⟩ | ⟨i, -, -, hr⟩ | ⟨i, hc, -, -, hr⟩ | ⟨i, hc, -, -, hr⟩ := round_cases fuse s
  · rw [hr]; exact hs
  · rw [hr]; exact hpass _ _ hs
  · rw [hr]; exact hturn _ _ i hc hs
  · rw [hr]; exact hturn _ _ i hc hs

theorem round_of_end {s : Machine X × σ} (fuse : Nat) (hc : s.1.cursor.current? = none) :
    round fuse s = .over s := by
  simp only [round, hc]

theorem round_of_noop {s : Machine X × σ} {i : Instruction} (fuse : Nat)
    (hc : s.1.cursor.current? = some i) (hi : i.command = .noop) :
    round fuse s = .again (s.1.pass, s.2) := by
  simp only [round, hc, hi, if_true]

/-- The state after a round that executes an instruction does not depend on the fuse. -/
theorem state_round_of_command {fuse : Nat} {s : Machine X × σ} {i : Instruction}
    (hc : s.1.cursor.current? = some i) (hi : i.command ≠ .noop) :
    (round fuse s).state = s.1.turn i s.2 := by
  unfold round
  simp only [hc, hi, if_false]
  split <;> rfl

/-- What every round preserves holds whenever the loop is at its head. -/
theorem Reaches.invariant {P : Machine X × σ → Prop} {fuse n : Nat} {start s : Machine X × σ}
    (hP : ∀ s, P s → P (round fuse s).state) (h : Reaches fuse start n s) (h0 : P start) : P s := by
  induction h with
  | refl => exact h0
  | @next n s t _ hr ih =>
    have ht := hP s ih
    rw [hr] at ht
    exact ht

theorem Reaches.prepend {fuse n : Nat} {a b c : Machine X × σ} (hr : round fuse a = .again b)
    (h : Reaches fuse b n c) : Reaches fuse a (n + 1) c := by
  induction h with
  | refl => exact .next .refl hr
  | next _ hs ih => exact .next ih hs

/-- A run goes on with what a round leads to. -/
theorem run_eq_round (fuse : Nat) (s : Machine X × σ) :
    s.1.run fuse s.2 = match round fuse s with
      | .again t => t.1.run fuse t.2
      | .over t => t := by
  rw [run]
  unfold round
  split
  · rename_i hc
    simp only [hc]
  · rename_i i hc
    simp only [hc]
    by_cases hi : i.command = .noop
    · simp only [hi, if_true]
    · simp only [hi, if_false]
      by_cases hf : fuse < (s.1.turn i s.2).1.executed
      · simp only [hf, if_true]
      · simp only [hf, if_false]

theorem run_of_again {fuse : Nat} {s t : Machine X × σ} (h : round fuse s = .again t) :
    s.1.run fuse s.2 = t.1.run fuse t.2 := by
  rw [run_eq_round, h]

theorem run_of_over {fuse : Nat} {s t : Machine X × σ} (h : round fuse s = .over t) :
    s.1.run fuse s.2 = t := by
  rw [run_eq_round, h]

/-- A run is what a round of the loop ends with. -/
theorem run_ends (fuse : Nat) (m : Machine X) (source : σ) :
    ∃ n last, Reaches fuse (m, source) n last ∧ round fuse last = .over (m.run fuse source) := by
  -- The recursion of a run is that of its rounds, so the rounds of the rest are prepended to.
  fun_induction run fuse m source with
  | case1 m source h =>
    refine ⟨0, (m, source), .refl, ?_⟩
    simp only [round, h]
  | case2 m source i h hi ih =>
    obtain ⟨n, last, hn, hl⟩ := ih
    have hr : round fuse (m, source) = .again (m.pass, source) := by
      simp only [round, h, hi, if_true]
    exact ⟨n + 1, last, hn.prepend hr, hl⟩
  | case3 m source i h hi next hf =>
    refine ⟨0, (m, source), .refl, ?_⟩
    simp only [round, h, hi, if_false]
    exact if_pos hf
  | case4 m source i h hi next hf ih =>
    obtain ⟨n, last, hn, hl⟩ := ih
    have hr : round fuse (m, source) = .again next := by
      simp only [round, h, hi, if_false]
      exact if_neg hf
    exact ⟨n + 1, last, hn.prepend hr, hl⟩

/-- The end of a run that comes within a number of rounds. -/
def runWithin? (fuse : Nat) : Nat → Machine X × σ → Option (Machine X × σ)
  | 0, _ => none
  | n + 1, s =>
    match round fuse s with
    | .again t => runWithin? fuse n t
    | .over t => some t

theorem run_of_runWithin? {fuse n : Nat} {s t : Machine X × σ}
    (h : runWithin? fuse n s = some t) : s.1.run fuse s.2 = t := by
  induction n generalizing s with
  | zero => cases h
  | succ n ih =>
    unfold runWithin? at h
    rcases hr : round fuse s with u | u
    · simp only [hr] at h
      rw [run_of_again hr, ih h]
    · simp only [hr] at h
      rw [run_of_over hr, Option.some.inj h]

end
end Machine

namespace Interpreter
variable {σ : Type} [RandomSource σ]

/-- The number of instructions after which a run stops. -/
def fuse (i : Interpreter σ) : Nat := i.options.maxInstructions.toNat

/-- The machine of a run before its first round: fresh, seeded, and with the program loaded. -/
def start (i : Interpreter σ) (program : Program) (state : Option Snapshot) : Machine Empty × σ :=
  let seeded := match state with
    | some state => ((freshMachine i.options).seed state).value
    | none => freshMachine i.options
  (seeded.moveCursor fun _ => .load program, i.source)

/-- What stands at the head of the loop of an execution after a number of rounds. -/
def Visits (i : Interpreter σ) (program : Program) (state : Option Snapshot) (n : Nat)
    (s : Machine Empty × σ) : Prop :=
  Machine.Reaches i.fuse (i.start program state) n s

/-- The machine and the source that an execution leaves behind. -/
def result (i : Interpreter σ) (program : Program) (state : Option Snapshot) : Machine Empty × σ :=
  ((i.execute program state).value.1, (i.execute program state).value.2.source)

theorem result_eq_run (i : Interpreter σ) (program : Program) (state : Option Snapshot) :
    i.result program state = (i.start program state).1.run i.fuse (i.start program state).2 := by
  cases state <;> rfl

/-- The stacks, the count and the source of an execution that ends within a number of rounds. The
recursion of a run goes down a lexicographic order and does not compute; its rounds do. -/
theorem execute_of_runWithin? {i : Interpreter σ} {program : Program} {state : Option Snapshot}
    {snapshot : Snapshot} {count : Nat} {source : σ} (n : Nat)
    (h : (Machine.runWithin? i.fuse n (i.start program state)).map
      (fun s => (s.1.snapshot, s.1.executed, s.2)) = some (snapshot, count, source)) :
    (i.execute program state).value.1.snapshot = snapshot ∧
    (i.execute program state).value.1.executed = count ∧
    (i.execute program state).value.2.source = source := by
  obtain ⟨t, ht, hview⟩ := Option.map_eq_some_iff.mp h
  have hresult : i.result program state = t := by
    rw [result_eq_run, Machine.run_of_runWithin? ht]
  rw [← hresult, Prod.mk.injEq, Prod.mk.injEq] at hview
  exact hview

/-- An execution ends, and its result is what the last round leaves. -/
theorem execute_ends (i : Interpreter σ) (program : Program) (state : Option Snapshot) :
    ∃ n last, i.Visits program state n last ∧
      Machine.round i.fuse last = .over (i.result program state) := by
  rw [result_eq_run]
  exact Machine.run_ends i.fuse _ _

/-- What stands at the head of the loop in some round, or at the end of the execution. -/
def Occurs (i : Interpreter σ) (program : Program) (state : Option Snapshot)
    (s : Machine Empty × σ) : Prop :=
  (∃ n, i.Visits program state n s) ∨ s = i.result program state

/-- What holds at the start and is preserved by every round holds in every round and at the end. -/
theorem Occurs.invariant {P : Machine Empty × σ → Prop} {i : Interpreter σ} {program : Program}
    {state : Option Snapshot} {s : Machine Empty × σ}
    (hP : ∀ s, P s → P (Machine.round i.fuse s).state) (hs : i.Occurs program state s)
    (h0 : P (i.start program state)) : P s := by
  obtain ⟨n, hn⟩ | rfl := hs
  · exact hn.invariant hP h0
  · obtain ⟨n, last, hn, hl⟩ := i.execute_ends program state
    have hs := hP last (hn.invariant hP h0)
    rw [hl] at hs
    exact hs

end Interpreter
end StackMachine
