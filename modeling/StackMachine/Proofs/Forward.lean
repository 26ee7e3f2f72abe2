import StackMachine.Proofs.Budget
import StackMachine.Proofs.Resumption
import StackMachine.Proofs.Steering

/-! Programs without jumps only move forward: no instruction of them is met twice, and a budget for
each instruction that counts is enough to come to the end. -/
namespace StackMachine

/-- No instruction of a program is one of some verbs. -/
def Program.Avoids (program : Program) (verbs : List Verb) : Prop :=
  ∀ i ∈ program, ∀ verb ∈ verbs, i.command ≠ .cursor verb.name

instance (program : Program) (verbs : List Verb) : Decidable (program.Avoids verbs) :=
  inferInstanceAs (Decidable (∀ i ∈ program, ∀ verb ∈ verbs, i.command ≠ .cursor verb.name))

theorem Instruction.isStraight_or_cursor (i : Instruction) :
    i.IsStraight ∨ ∃ verb, i.command = .cursor verb := by
  cases hi : i.command with
  | cursor verb => exact .inr ⟨verb, rfl⟩
  | _ => exact .inl fun verb hv => by cases hi.symm.trans hv

namespace Cursor

/-- The instructions from the position on. -/
def ahead (c : Cursor) : List Instruction := c.program.toList.drop c.position

theorem ahead_eq_cons {c : Cursor} {i : Instruction} (h : c.current? = some i) :
    c.ahead = i :: c.program.toList.drop (c.position + 1) := by
  obtain ⟨hp, hi⟩ := Array.getElem?_eq_some_iff.mp h
  rw [ahead, List.drop_eq_getElem_cons (by simpa using hp), Array.getElem_toList, hi]

theorem ahead_eq_nil_iff {c : Cursor} : c.ahead = [] ↔ c.current? = none := by
  rw [ahead, List.drop_eq_nil_iff, current?_eq_none_iff]
  rfl

/-- Moving forward leaves the instruction at hand behind. -/
theorem countP_ahead_le {c d : Cursor} {i : Instruction} (hc : c.current? = some i)
    (hprogram : d.program = c.program) (hlt : c.position < d.position) (p : Instruction → Bool) :
    d.ahead.countP p + (if p i then 1 else 0) ≤ c.ahead.countP p := by
  have hsub : d.ahead.Sublist (c.program.toList.drop (c.position + 1)) := by
    rw [ahead, hprogram]
    exact List.drop_sublist_drop_left _ hlt
  have hle := hsub.countP_le (p := p)
  rw [ahead_eq_cons hc, List.countP_cons]
  omega

end Cursor

namespace Machine
open Memory

theorem lt_of_steers {X : Type} {verb : String} {length position next : Nat} {m m' : Memory X}
    (h : Steers verb length m position m' next) (hp : position < length) (hjump : verb ≠ "goto")
    (hjumpIf : verb ≠ "gotoif") : position < next := by
  unfold Steers at h
  split at h
  · obtain ⟨b, -, hnext⟩ := h
    split at hnext <;> omega
  · omega
  · obtain ⟨b, -, hnext⟩ := h
    split at hnext <;> omega
  · exact absurd rfl hjump
  · exact absurd rfl hjumpIf
  · omega

variable {σ : Type} [RandomSource σ]

theorem lt_position_turn {program : Program} (hprogram : program.Avoids [.jump, .jumpIf])
    {m : Machine Empty} (hin : InProgram program m) {i : Instruction}
    (hc : m.cursor.current? = some i) (source : σ) :
    m.cursor.position < (m.turn i source).1.cursor.position := by
  have hp := Cursor.position_lt_of_current? hc
  rcases i.isStraight_or_cursor with hstraight | ⟨verb, hv⟩
  · have hcursor : (m.turn i source).1.cursor = m.cursor.advance := by
      rw [turn_eq_effect hstraight]
    have hnext := Cursor.position_advance hin.landing_eq hp
    rw [hcursor]
    omega
  · have hcursor : (m.turn i source).1.cursor = (m.steer verb).cursor.advance := by
      simp only [turn, perform, hv]
    have hsteers := steers_steer verb hin.landing_eq hp
    have hmem : i ∈ program := hin.program_eq ▸ Array.mem_of_getElem? hc
    have hjump : i.command ≠ .cursor "goto" := hprogram i hmem .jump (by simp)
    have hjumpIf : i.command ≠ .cursor "gotoif" := hprogram i hmem .jumpIf (by simp)
    rw [hv] at hjump hjumpIf
    rw [hcursor]
    exact lt_of_steers hsteers hp (fun h => hjump (h ▸ rfl)) fun h => hjumpIf (h ▸ rfl)

/-- A round that finds an instruction leaves it behind. -/
theorem lt_position_round {program : Program} (hprogram : program.Avoids [.jump, .jumpIf])
    (fuse : Nat) {s : Machine Empty × σ} (hin : InProgram program s.1) {i : Instruction}
    (hc : s.1.cursor.current? = some i) :
    s.1.cursor.position < (round fuse s).state.1.cursor.position := by
  by_cases hi : i.command = .noop
  · have hpass : (round fuse s).state.1.cursor.position = s.1.cursor.position + 1 := by
      rw [round_of_noop fuse hc hi]
      exact hin.position_pass hc
    omega
  · rw [state_round_of_command hc hi]
    exact lt_position_turn hprogram hin hc s.2

theorem position_le_round {program : Program} (hprogram : program.Avoids [.jump, .jumpIf])
    (fuse : Nat) {s : Machine Empty × σ} (hin : InProgram program s.1) :
    s.1.cursor.position ≤ (round fuse s).state.1.cursor.position := by
  cases hc : s.1.cursor.current? with
  | none =>
    rw [round_of_end fuse hc]
    exact Nat.le_refl _
  | some i => exact Nat.le_of_lt (lt_position_round hprogram fuse hin hc)

theorem Reaches.position_le {fuse n : Nat} {program : Program}
    (hprogram : program.Avoids [.jump, .jumpIf]) {start s : Machine Empty × σ}
    (h : Reaches fuse start n s) (hin : InProgram program start.1) :
    start.1.cursor.position ≤ s.1.cursor.position := by
  have hall := h.invariant
    (P := fun s => InProgram program s.1 ∧ start.1.cursor.position ≤ s.1.cursor.position)
    (fun s hs => ⟨hs.1.round fuse s, Nat.le_trans hs.2 (position_le_round hprogram fuse hs.1)⟩)
    ⟨hin, Nat.le_refl _⟩
  exact hall.2

/-- Of two rounds the later one stands further on. -/
theorem Reaches.position_lt {fuse n k : Nat} {program : Program}
    (hprogram : program.Avoids [.jump, .jumpIf]) {start s t : Machine Empty × σ}
    (hin : InProgram program start.1) (hs : Reaches fuse start n s) (ht : Reaches fuse start k t)
    (hlt : n < k) : s.1.cursor.position < t.1.cursor.position := by
  obtain ⟨d, rfl⟩ := Nat.exists_eq_add_of_le (Nat.succ_le_of_lt hlt)
  obtain ⟨u, hu, hd⟩ := hs.through ht
  have hins : InProgram program s.1 := hs.invariant (InProgram.round fuse) hin
  have hinu : InProgram program u.1 := by
    have h := InProgram.round fuse s hins
    rwa [hu] at h
  cases hc : s.1.cursor.current? with
  | none => cases (round_of_end fuse hc).symm.trans hu
  | some i =>
    have hsu := lt_position_round hprogram fuse hins hc
    rw [hu] at hsu
    exact Nat.lt_of_lt_of_le hsu (hd.position_le hprogram hinu)

/-- What a round counts is no longer ahead after it. -/
theorem executed_add_ahead_round {program : Program} (hprogram : program.Avoids [.jump, .jumpIf])
    (fuse : Nat) {s : Machine Empty × σ} (hin : InProgram program s.1) :
    (round fuse s).state.1.executed +
        (round fuse s).state.1.cursor.ahead.countP Instruction.counts ≤
      s.1.executed + s.1.cursor.ahead.countP Instruction.counts := by
  cases hc : s.1.cursor.current? with
  | none =>
    rw [round_of_end fuse hc]
    exact Nat.le_refl _
  | some i =>
    have hlt := lt_position_round hprogram fuse hin hc
    have hsame : (round fuse s).state.1.cursor.program = s.1.cursor.program :=
      (hin.round fuse s).program_eq.trans hin.program_eq.symm
    have hahead := Cursor.countP_ahead_le hc hsame hlt Instruction.counts
    by_cases hi : i.command = .noop
    · have hx : (round fuse s).state.1.executed = s.1.executed := by
        rw [round_of_noop fuse hc hi]
        rfl
      omega
    · have hcounts : i.counts = true := by simp [Instruction.counts, hi]
      have hx : (round fuse s).state.1.executed = s.1.executed + 1 := by
        rw [state_round_of_command hc hi]
        rfl
      rw [if_pos hcounts] at hahead
      omega

end Machine

namespace Interpreter
variable {σ : Type} [RandomSource σ]
open Machine

theorem executed_le_of_avoids (i : Interpreter σ) {program : Program} (state : Option Snapshot)
    (hprogram : program.Avoids [.jump, .jumpIf]) {s : Machine Empty × σ}
    (hs : i.Occurs program state s) : s.1.executed ≤ program.countP Instruction.counts := by
  have hall := hs.invariant
    (P := fun s => InProgram program s.1 ∧
      s.1.executed + s.1.cursor.ahead.countP Instruction.counts ≤
        program.countP Instruction.counts)
    (fun s hs => ⟨hs.1.round i.fuse s,
      Nat.le_trans (executed_add_ahead_round hprogram i.fuse hs.1) hs.2⟩)
    ⟨i.start_inProgram program state, by
      have hx := i.start_executed program state
      have hahead : (i.start program state).1.cursor.ahead = program.toList := rfl
      rw [hx, hahead, Array.countP_toList]
      omega⟩
  exact Nat.le_of_add_right_le hall.2

/-- A program without jumps moves forward from each round to the next, so that no instruction is met
twice and the count is at most the number of its instructions that count. Where the budget covers
that number the fuse does not trip, the execution comes to the end of the program, and a larger
budget makes no difference. -/
theorem execute_forward (i : Interpreter σ) {program : Program} (state : Option Snapshot)
    (hprogram : program.Avoids [.jump, .jumpIf]) :
    let result := i.result program state
    (∀ n k s t, i.Visits program state n s → i.Visits program state k t →
      (n < k ↔ s.1.cursor.position < t.1.cursor.position) ∧
      (s.1.cursor.position = t.1.cursor.position → n = k)) ∧
    (∀ n s c, i.Visits program state n s → s.1.cursor.current? = some c →
      s.1.cursor.position < result.1.cursor.position) ∧
    result.1.executed ≤ program.countP Instruction.counts ∧
    (program.countP Instruction.counts ≤ i.options.maxInstructions.toNat →
      result.1.executed ≤ i.options.maxInstructions.toNat ∧
      result.1.cursor.position = program.size ∧
      ∀ j : Interpreter σ, j.options.kinds = i.options.kinds → j.source = i.source →
        i.options.maxInstructions ≤ j.options.maxInstructions →
        j.result program state = result) := by
  intro result
  have hin := i.start_inProgram program state
  have hlt {n k : Nat} {s t : Machine Empty × σ} (hs : i.Visits program state n s)
      (ht : i.Visits program state k t) (h : n < k) :
      s.1.cursor.position < t.1.cursor.position := hs.position_lt hprogram hin ht h
  have hcount := i.executed_le_of_avoids state hprogram (.inr rfl)
  obtain ⟨last, final, hlast, hover⟩ := i.execute_ends program state
  have hfinal : InProgram program result.1 := by
    have h := InProgram.round i.fuse final hlast.inProgram
    rwa [hover] at h
  refine ⟨?_, ?_, hcount, ?_⟩
  · intro n k s t hs ht
    rcases Nat.lt_trichotomy n k with h | rfl | h
    · have := hlt hs ht h
      omega
    · cases hs.deterministic ht
      omega
    · have := hlt ht hs h
      omega
  · intro n s c hs hc
    have hend : final.1.cursor.position ≤ result.1.cursor.position := by
      have h := position_le_round hprogram i.fuse hlast.inProgram
      rwa [hover] at h
    rcases Nat.lt_trichotomy n last with h | rfl | h
    · have := hlt hs hlast h
      omega
    · cases hs.deterministic hlast
      have h := lt_position_round hprogram i.fuse hlast.inProgram hc
      rwa [hover] at h
    · obtain ⟨d, rfl⟩ := Nat.exists_eq_add_of_le (Nat.succ_le_of_lt h)
      obtain ⟨u, hu, -⟩ := hlast.through hs
      cases hover.symm.trans hu
  · intro hbudget
    have hfuse : result.1.executed ≤ i.fuse := Nat.le_trans hcount hbudget
    have hdone : result.1.cursor.position = program.size := by
      rcases round_over hover with hc | hc
      · exact hfinal.position_eq hc
      · exact absurd hc (Nat.not_lt.mpr hfuse)
    refine ⟨hfuse, hdone, ?_⟩
    intro j hkinds hsource hle
    obtain ⟨-, heq⟩ | ⟨hx, -⟩ :=
      result_cases_of_budget_le hkinds.symm hsource.symm hle program state
    · exact heq.symm
    · have hx' : result.1.executed = i.fuse + 1 := hx
      omega

/-- A skip over the end of a program that the budget just covers. -/
theorem execute_forward_skip_at_end :
    let i : Interpreter Script := (ofSource { maxInstructions := 2 } ⟨[], []⟩).value
    let j : Interpreter Script := (ofSource { maxInstructions := 9 } ⟨[], []⟩).value
    let program : Program :=
      #[⟨.literal .boolean, "true", 0⟩, .noop, ⟨.cursor "skipif", "cursor.skipif", 0⟩]
    program.Avoids [.jump, .jumpIf] ∧
    program.countP Instruction.counts = i.options.maxInstructions.toNat ∧
    (i.result program none).1.executed ≤ 2 ∧
    (i.result program none).1.cursor.position = 3 ∧
    j.result program none = i.result program none := by
  intro i j program
  have hprogram : program.Avoids [.jump, .jumpIf] := by decide
  have hcount : program.countP Instruction.counts = i.options.maxInstructions.toNat := by decide
  obtain ⟨-, -, hexecuted, hbudget⟩ := execute_forward i none hprogram
  obtain ⟨-, hposition, hlarger⟩ := hbudget (Nat.le_of_eq hcount)
  exact ⟨hprogram, hcount, hexecuted, hposition, hlarger j rfl rfl (by decide)⟩

end Interpreter
end StackMachine
