import StackMachine.Proofs.Resolution
import StackMachine.Proofs.Seeding

/-! Programs without verbs of the cursor run straight through, so an execution can be split in two:
a snapshot hands the stacks of the first part on to the second. -/
namespace StackMachine

namespace Instruction

/-- Whether an instruction counts as executed. -/
def counts (i : Instruction) : Bool := i.command ≠ .noop

/-- An instruction that leaves the cursor alone. -/
def IsStraight (i : Instruction) : Prop := ∀ verb, i.command ≠ .cursor verb

end Instruction

namespace Machine
variable {σ : Type} [RandomSource σ]

/-- What an instruction does to the stacks and the random source of a machine at rest. -/
def effect (s : Memory Empty × σ) (i : Instruction) : Memory Empty × σ :=
  let (next, source) := ({ memory := s.1 } : Machine Empty).perform i s.2
  (next.memory, source)

/-- An instruction that leaves the cursor alone does the same whatever the cursor and the count. -/
theorem perform_eq_effect {i : Instruction} (hi : i.IsStraight) (m : Machine Empty) (source : σ) :
    m.perform i source = ({ m with memory := (effect (m.memory, source) i).1 },
      (effect (m.memory, source) i).2) := by
  unfold effect perform
  cases hc : i.command with
  | literal kind => rfl
  | call stack function =>
    simp only [call]
    split
    · rfl
    · rename_i op _
      exact nomatch op
    · rfl
  | cursor verb => exact absurd hc (hi verb)
  | noop => rfl

theorem effect_of_noop {i : Instruction} (hi : i.command = .noop) (s : Memory Empty × σ) :
    effect s i = s := by
  unfold effect perform
  rw [hi]

theorem foldl_effect_of_not_counts {instructions : List Instruction}
    (h : instructions.countP Instruction.counts = 0) (s : Memory Empty × σ) :
    instructions.foldl effect s = s := by
  rw [List.countP_eq_zero] at h
  induction instructions generalizing s with
  | nil => rfl
  | cons i instructions ih =>
    have hi : i.command = .noop := by simpa [Instruction.counts] using h i List.mem_cons_self
    rw [List.foldl_cons, effect_of_noop hi, ih fun j hj => h j (List.mem_cons_of_mem _ hj)]

theorem current?_of_drop {m : Machine Empty} {i : Instruction} {rest : List Instruction}
    (h : m.cursor.program.toList.drop m.cursor.position = i :: rest) :
    m.cursor.current? = some i := by
  unfold Cursor.current?
  rw [← Array.getElem?_toList, ← Nat.add_zero m.cursor.position, ← List.getElem?_drop, h]
  rfl

theorem turn_eq_effect {i : Instruction} (hi : i.IsStraight) (m : Machine Empty) (source : σ) :
    m.turn i source = ({ m with
      memory := (effect (m.memory, source) i).1, cursor := m.cursor.advance,
      executed := m.executed + 1 }, (effect (m.memory, source) i).2) := by
  unfold turn
  rw [perform_eq_effect hi]

/-- Where the fuse lets the rest of a straight program pass, a run does all of it. -/
theorem run_straight {program : Program} {fuse : Nat} {rest : List Instruction}
    (hstraight : ∀ i ∈ rest, i.IsStraight) {m : Machine Empty} (source : σ)
    (hin : InProgram program m) (hrest : program.toList.drop m.cursor.position = rest)
    (hx : m.executed ≤ fuse)
    (hfuse : m.executed + rest.countP Instruction.counts ≤ fuse + 1) :
    ((m.run fuse source).1.memory, (m.run fuse source).2) =
      rest.foldl effect (m.memory, source) ∧
    (m.run fuse source).1.executed = m.executed + rest.countP Instruction.counts := by
  induction rest generalizing m source with
  | nil =>
    have hlen : program.toList.length ≤ m.cursor.position := List.drop_eq_nil_iff.mp hrest
    have hc : m.cursor.current? = none := by
      rw [Cursor.current?_eq_none_iff, Cursor.length, hin.program_eq]
      exact hlen
    have hr : round fuse (m, source) = .over (m, source) := by simp only [round, hc]
    rw [run_of_over hr]
    exact ⟨rfl, rfl⟩
  | cons i rest ih =>
    have hc : m.cursor.current? = some i := current?_of_drop (by rw [hin.program_eq, hrest])
    have hnext : program.toList.drop (m.cursor.position + 1) = rest := by
      rw [← List.drop_drop, hrest]
      rfl
    have hpos := hin.position_pass hc
    have hstraight' : ∀ j ∈ rest, j.IsStraight := fun j hj => hstraight j (List.mem_cons_of_mem _ hj)
    by_cases hi : i.command = .noop
    · have hr : round fuse (m, source) = .again (m.pass, source) := by
        simp only [round, hc, hi, if_true]
      have hcount : (i :: rest).countP Instruction.counts = rest.countP Instruction.counts :=
        List.countP_cons_of_neg (by simp [Instruction.counts, hi])
      rw [hcount] at hfuse ⊢
      rw [run_of_again hr, List.foldl_cons, effect_of_noop hi]
      exact ih hstraight' source hin.pass (by rw [hpos]; exact hnext) hx hfuse
    have hcount : (i :: rest).countP Instruction.counts = rest.countP Instruction.counts + 1 :=
      List.countP_cons_of_pos (by simp [Instruction.counts, hi])
    have hturn := turn_eq_effect (hstraight i List.mem_cons_self) m source
    rw [hcount] at hfuse ⊢
    by_cases hf : fuse < m.executed + 1
    · -- The fuse trips here, so there is nothing left to do but passing over instructions.
      have hr : round fuse (m, source) = .over (m.turn i source) := by
        simp only [round, hc, hi, if_false]
        exact if_pos hf
      have hzero : rest.countP Instruction.counts = 0 := by omega
      rw [run_of_over hr, hturn, List.foldl_cons, foldl_effect_of_not_counts hzero, hzero]
      exact ⟨rfl, rfl⟩
    · have hr : round fuse (m, source) = .again (m.turn i source) := by
        simp only [round, hc, hi, if_false]
        exact if_neg hf
      have hx' : (m.turn i source).1.executed = m.executed + 1 := rfl
      have hnext' : program.toList.drop (m.turn i source).1.cursor.position = rest := by
        rw [hturn]
        exact hpos ▸ hnext
      have h := ih hstraight' (m.turn i source).2 (hin.turn i source) hnext' (by omega) (by omega)
      rw [run_of_again hr, List.foldl_cons]
      refine ⟨h.1.trans ?_, by omega⟩
      rw [hturn]

end Machine

namespace Interpreter
variable {σ : Type} [RandomSource σ]
open Machine

/-- A straight program within the budget does to the start what its instructions do one by one. -/
theorem result_straight (i : Interpreter σ) {program : Program} (state : Option Snapshot)
    (hstraight : ∀ c ∈ program, c.IsStraight)
    (hcount : program.countP Instruction.counts ≤ i.fuse + 1) :
    ((i.result program state).1.memory, (i.result program state).2) =
      program.toList.foldl effect ((i.start program state).1.memory, i.source) ∧
    (i.result program state).1.executed = program.countP Instruction.counts := by
  have hx : (i.start program state).1.executed = 0 := i.start_executed program state
  have hlist : ∀ c ∈ program.toList, c.IsStraight :=
    fun c hc => hstraight c (Array.mem_toList_iff.mp hc)
  rw [← Array.countP_toList] at hcount ⊢
  have hx' : (i.start program state).1.executed ≤ i.fuse := by omega
  have h := run_straight hlist (i.start program state).2 (i.start_inProgram program state) rfl hx'
    (by omega)
  rw [result_eq_run]
  refine ⟨h.1, ?_⟩
  rw [h.2, hx, Nat.zero_add]

theorem options_execute (i : Interpreter σ) (program : Program) (state : Option Snapshot) :
    (i.execute program state).value.2.options = i.options := by
  cases state <;> rfl

/-- Starting from the snapshot of an execution is starting from its stacks. -/
theorem memory_start_snapshot (i j : Interpreter σ) (hoptions : j.options = i.options)
    (p q : Program) (state : Option Snapshot) :
    (j.start q (some (i.result p state).1.snapshot)).1.memory = (i.result p state).1.memory := by
  have hlayout : (i.result p state).1.memory.layout = (freshMachine i.options).memory.layout :=
    layout_of_occurs (.inr rfl)
  refine memory_seed_snapshot (isBlank_ofKinds _) ?_
  rw [hlayout, hoptions]

/-- Two straight programs that fit the budget together do the same in one execution as in two, of
which the second starts from the snapshot of the first. -/
theorem execute_append_eq_resume (i : Interpreter σ) {p q : Program} (state : Option Snapshot)
    (hp : ∀ c ∈ p, c.IsStraight) (hq : ∀ c ∈ q, c.IsStraight)
    (hcount : p.countP Instruction.counts + q.countP Instruction.counts ≤
      i.options.maxInstructions.toNat + 1) :
    let whole := (i.execute (p ++ q) state).value
    let first := (i.execute p state).value
    let second := (first.2.execute q (some first.1.snapshot)).value
    whole.1.memory = second.1.memory ∧ whole.2.source = second.2.source ∧
    whole.1.executed = first.1.executed + second.1.executed := by
  intro whole first second
  let j : Interpreter σ := first.2
  have hoptions : j.options = i.options := i.options_execute p state
  have hfuse : i.fuse = i.options.maxInstructions.toNat := rfl
  have hfuse' : j.fuse = i.fuse := by rw [fuse, fuse, hoptions]
  have hpq : ∀ c ∈ p ++ q, c.IsStraight := by
    intro c hc
    rcases Array.mem_append.mp hc with hc | hc
    · exact hp c hc
    · exact hq c hc
  obtain ⟨hwhole, hxwhole⟩ := i.result_straight state hpq (by rw [Array.countP_append]; omega)
  obtain ⟨hfirst, hxfirst⟩ := i.result_straight state hp (by omega)
  obtain ⟨hsecond, hxsecond⟩ := j.result_straight (some first.1.snapshot) hq (by omega)
  have hstart : (j.start q (some first.1.snapshot)).1.memory = first.1.memory :=
    memory_start_snapshot i j hoptions p q state
  have heq : (whole.1.memory, whole.2.source) = (second.1.memory, second.2.source) := by
    calc (whole.1.memory, whole.2.source)
      _ = (p ++ q).toList.foldl effect ((i.start p state).1.memory, i.source) := hwhole
      _ = q.toList.foldl effect
            (p.toList.foldl effect ((i.start p state).1.memory, i.source)) := by
        rw [Array.toList_append, List.foldl_append]
      _ = q.toList.foldl effect (first.1.memory, j.source) := by rw [← hfirst]; rfl
      _ = (second.1.memory, second.2.source) := by
        rw [← hstart]
        exact hsecond.symm
  obtain ⟨hmemory, hsource⟩ := Prod.mk.inj heq
  refine ⟨hmemory, hsource, ?_⟩
  calc whole.1.executed
    _ = (p ++ q).countP Instruction.counts := hxwhole
    _ = p.countP Instruction.counts + q.countP Instruction.counts := Array.countP_append
    _ = first.1.executed + second.1.executed := by rw [← hxfirst, ← hxsecond]; rfl

/-- The split of a program that just trips the fuse, with a draw in each part. -/
theorem execute_append_eq_resume_at_fuse :
    let i : Interpreter Script := (ofSource { maxInstructions := 2 } ⟨[7, 8], []⟩).value
    let rand : Instruction := ⟨.call "integer" "rand", "integer.rand", 0⟩
    let p : Program := #[rand, .noop]
    let q : Program := #[⟨.literal .integer, "1", 0⟩, rand, .noop]
    let state : Snapshot := .ofList [("integer", [.integer 5]), ("float", [.integer 5])]
    let whole := (i.execute (p ++ q) (some state)).value
    let first := (i.execute p (some state)).value
    let second := (first.2.execute q (some first.1.snapshot)).value
    (∀ c ∈ p, c.IsStraight) ∧ (∀ c ∈ q, c.IsStraight) ∧
    p.countP Instruction.counts + q.countP Instruction.counts =
      i.options.maxInstructions.toNat + 1 ∧
    whole.1.memory = second.1.memory ∧ whole.2.source = second.2.source ∧
    whole.1.executed = first.1.executed + second.1.executed ∧
    first.1.snapshot = .ofList [("boolean", []), ("float", [.float 5.0]),
      ("integer", [.integer 5, .integer 7])] ∧
    first.1.executed = 1 ∧ first.2.source = ⟨[8], []⟩ ∧
    second.1.snapshot = .ofList [("boolean", []), ("float", [.float 5.0]),
      ("integer", [.integer 5, .integer 7, .integer 1, .integer 8])] ∧
    second.1.executed = 2 ∧ second.2.source = ⟨[], []⟩ := by
  intro i rand p q state whole first second
  have hp : ∀ c ∈ p, c.IsStraight := by
    intro c hc verb
    simp only [p, List.mem_toArray, List.mem_cons, List.not_mem_nil, or_false] at hc
    rcases hc with rfl | rfl <;> exact Command.noConfusion
  have hq : ∀ c ∈ q, c.IsStraight := by
    intro c hc verb
    simp only [q, List.mem_toArray, List.mem_cons, List.not_mem_nil, or_false] at hc
    rcases hc with rfl | rfl | rfl <;> exact Command.noConfusion
  have hcount : p.countP Instruction.counts + q.countP Instruction.counts =
      i.options.maxInstructions.toNat + 1 := by decide
  have hlaw : whole.1.memory = second.1.memory ∧ whole.2.source = second.2.source ∧
      whole.1.executed = first.1.executed + second.1.executed :=
    execute_append_eq_resume i (some state) hp hq (Nat.le_of_eq hcount)
  have hfirst : first.1.snapshot = .ofList [("boolean", []), ("float", [.float 5.0]),
        ("integer", [.integer 5, .integer 7])] ∧
      first.1.executed = 1 ∧ first.2.source = ⟨[8], []⟩ :=
    execute_of_runWithin? 3 (by decide +kernel)
  have hwhole : whole.1.snapshot = .ofList [("boolean", []), ("float", [.float 5.0]),
        ("integer", [.integer 5, .integer 7, .integer 1, .integer 8])] ∧
      whole.1.executed = 3 ∧ whole.2.source = ⟨[], []⟩ :=
    execute_of_runWithin? 4 (by decide +kernel)
  -- The program in two parts ends where the whole one does, which was computed.
  have hsnapshot : second.1.snapshot = whole.1.snapshot := by
    unfold Machine.snapshot
    rw [hlaw.1]
  have hsecond : second.1.executed = 2 := by
    have hsum := hlaw.2.2
    rw [hwhole.2.1, hfirst.2.1] at hsum
    omega
  exact ⟨hp, hq, hcount, hlaw.1, hlaw.2.1, hlaw.2.2, hfirst.1, hfirst.2.1, hfirst.2.2,
    hsnapshot.trans hwhole.1, hsecond, hlaw.2.1.symm.trans hwhole.2.2⟩

end Interpreter
end StackMachine
