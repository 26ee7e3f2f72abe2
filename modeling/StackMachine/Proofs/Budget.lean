import StackMachine.Proofs.Termination

/-! Runs of one program under two budgets. The smaller budget cuts the run of the larger one off
right after an instruction that counts, or it makes no difference. -/
namespace StackMachine
namespace Machine
variable {X σ : Type} [Host X] [RandomSource σ]

theorem round_again_mono {fuse fuse' : Nat} (hle : fuse ≤ fuse') {s t : Machine X × σ}
    (h : round fuse s = .again t) : round fuse' s = .again t := by
  unfold round at h ⊢
  cases hc : s.1.cursor.current? with
  | none =>
    rw [hc] at h
    cases h
  | some i =>
    simp only [hc] at h ⊢
    by_cases hi : i.command = .noop
    · simpa only [hi, if_true] using h
    · simp only [hi, if_false] at h ⊢
      split at h
      · cases h
      · rename_i hf
        have hf' : ¬fuse' < (s.1.turn i s.2).1.executed := by omega
        rw [if_neg hf']
        exact h

theorem Reaches.mono {fuse fuse' n : Nat} {start s : Machine X × σ} (hle : fuse ≤ fuse')
    (h : Reaches fuse start n s) : Reaches fuse' start n s := by
  induction h with
  | refl => exact .refl
  | next _ hr ih => exact .next ih (round_again_mono hle hr)

theorem Reaches.run_eq {fuse n : Nat} {start s : Machine X × σ} (h : Reaches fuse start n s) :
    start.1.run fuse start.2 = s.1.run fuse s.2 := by
  induction h with
  | refl => rfl
  | @next n s t _ hr ih => rw [ih, run_of_again hr]

theorem Reaches.deterministic {fuse n : Nat} {start s t : Machine X × σ}
    (hs : Reaches fuse start n s) (ht : Reaches fuse start n t) : s = t := by
  induction hs generalizing t with
  | refl =>
    cases ht
    rfl
  | next _ hr ih =>
    cases ht with
    | next ht hr' =>
      rw [ih ht, hr'] at hr
      cases hr
      rfl

/-- The later of two states on the way of a run is reached through the earlier one. -/
theorem Reaches.through {fuse n k : Nat} {start s t : Machine X × σ}
    (hs : Reaches fuse start n s) (ht : Reaches fuse start (n + 1 + k) t) :
    ∃ u, round fuse s = .again u ∧ Reaches fuse u k t := by
  induction k generalizing t with
  | zero =>
    cases ht with
    | next ht hr =>
      rw [← hs.deterministic ht] at hr
      exact ⟨t, hr, .refl⟩
  | succ k ih =>
    cases ht with
    | next ht hr =>
      obtain ⟨u, hu, hk⟩ := ih ht
      exact ⟨u, hu, .next hk hr⟩

theorem le_executed_round (fuse : Nat) (s : Machine X × σ) :
    s.1.executed ≤ (round fuse s).state.1.executed := by
  obtain ⟨-, h⟩ | ⟨i, -, -, h⟩ | ⟨i, -, -, -, h⟩ | ⟨i, -, -, -, h⟩ := round_cases fuse s
  · rw [h]; exact Nat.le_refl _
  · rw [h]; exact Nat.le_refl _
  · rw [h]; exact Nat.le_succ _
  · rw [h]; exact Nat.le_succ _

theorem Reaches.executed_le {fuse n : Nat} {start s : Machine X × σ}
    (h : Reaches fuse start n s) : start.1.executed ≤ s.1.executed :=
  h.invariant (P := fun s => start.1.executed ≤ s.1.executed)
    (fun s hs => Nat.le_trans hs (le_executed_round fuse s)) (Nat.le_refl _)

theorem executed_le_run (fuse : Nat) (s : Machine X × σ) :
    s.1.executed ≤ (s.1.run fuse s.2).1.executed := by
  obtain ⟨n, last, hn, hl⟩ := run_ends fuse s.1 s.2
  have hlast := le_executed_round fuse last
  rw [hl] at hlast
  exact Nat.le_trans hn.executed_le hlast

theorem executed_round_le_run (fuse : Nat) (s : Machine X × σ) :
    (round fuse s).state.1.executed ≤ (s.1.run fuse s.2).1.executed := by
  obtain ⟨-, h⟩ | ⟨i, -, -, h⟩ | ⟨i, -, -, -, h⟩ | ⟨i, -, -, -, h⟩ := round_cases fuse s
  · rw [run_of_over h, h]
    exact Nat.le_refl _
  · rw [run_of_again h, h]
    exact executed_le_run fuse (s.1.pass, s.2)
  · rw [run_of_over h, h]
    exact Nat.le_refl _
  · rw [run_of_again h, h]
    exact executed_le_run fuse (s.1.turn i s.2)

/-- What a run holds right after the instruction with which its count becomes `count`. -/
def Counted (fuse : Nat) (start : Machine X × σ) (count : Nat) (t : Machine X × σ) : Prop :=
  ∃ n s i, Reaches fuse start n s ∧ s.1.cursor.current? = some i ∧ i.command ≠ .noop ∧
    t = s.1.turn i s.2 ∧ s.1.executed + 1 = count

theorem Counted.unique {fuse count : Nat} {start t t' : Machine X × σ}
    (h : Counted fuse start count t) (h' : Counted fuse start count t') : t = t' := by
  -- The count of a state that comes later is past that of an instruction executed before it.
  have later {n k : Nat} {s s' : Machine X × σ} {i : Instruction} (hs : Reaches fuse start n s)
      (hc : s.1.cursor.current? = some i) (hi : i.command ≠ .noop)
      (hs' : Reaches fuse start (n + 1 + k) s') : s.1.executed + 1 ≤ s'.1.executed := by
    obtain ⟨u, hu, hk⟩ := hs.through hs'
    have hstate : (round fuse s).state = s.1.turn i s.2 := state_round_of_command hc hi
    rw [hu] at hstate
    have hle := hk.executed_le
    rw [show u = s.1.turn i s.2 from hstate] at hle
    exact hle
  obtain ⟨n, s, i, hs, hc, hi, rfl, hx⟩ := h
  obtain ⟨n', s', i', hs', hc', hi', rfl, hx'⟩ := h'
  rcases Nat.lt_trichotomy n n' with hlt | heq | hlt
  · obtain ⟨k, rfl⟩ := Nat.exists_eq_add_of_le (Nat.succ_le_of_lt hlt)
    have := later hs hc hi hs'
    omega
  · subst heq
    cases hs.deterministic hs'
    cases hc.symm.trans hc'
    rfl
  · obtain ⟨k, rfl⟩ := Nat.exists_eq_add_of_le (Nat.succ_le_of_lt hlt)
    have := later hs' hc' hi' hs
    omega

end Machine

namespace Interpreter
variable {σ : Type} [RandomSource σ]
open Machine

theorem executed_of_visits {i : Interpreter σ} {program : Program} {state : Option Snapshot}
    {n : Nat} {s : Machine Empty × σ} (h : i.Visits program state n s) : s.1.executed ≤ i.fuse :=
  (Reaches.rounds_le h (i.start_inProgram program state) (i.start_executed program state)).1

theorem executed_result_le (i : Interpreter σ) (program : Program) (state : Option Snapshot) :
    (i.result program state).1.executed ≤ i.fuse + 1 := by
  obtain ⟨n, last, hn, hl⟩ := i.execute_ends program state
  have hround := executed_round_le i.fuse last
  rw [hl] at hround
  exact Nat.le_trans hround (Nat.succ_le_succ (executed_of_visits hn))

theorem executed_of_occurs {i : Interpreter σ} {program : Program} {state : Option Snapshot}
    {s : Machine Empty × σ} (h : i.Occurs program state s) : s.1.executed ≤ i.fuse + 1 := by
  obtain ⟨n, hn⟩ | rfl := h
  · exact Nat.le_succ_of_le (executed_of_visits hn)
  · exact i.executed_result_le program state

/-- In every round and at the end the count fits a word of 64 bits. The machine counts without a
bound; where this holds, a counter of that width counts the same. -/
def CountFits (i : Interpreter σ) (program : Program) (state : Option Snapshot) : Prop :=
  ∀ s, i.Occurs program state s → s.1.executed < UInt64.size

/-- A budget below the greatest word trips its fuse before the count leaves the word. -/
theorem countFits_of_budget {i : Interpreter σ}
    (hfuse : i.options.maxInstructions.toNat < UInt64.size - 1) (program : Program)
    (state : Option Snapshot) : i.CountFits program state := by
  intro s hs
  have hcount : s.1.executed ≤ i.options.maxInstructions.toNat + 1 := executed_of_occurs hs
  omega

/-- An execution under a smaller budget is the one under the larger budget, if that stays within the
smaller one, or it is cut off right after the instruction that trips the fuse. -/
theorem result_cases_of_budget_le {i j : Interpreter σ}
    (hkinds : i.options.kinds = j.options.kinds) (hsource : i.source = j.source)
    (hle : i.fuse ≤ j.fuse) (program : Program) (state : Option Snapshot) :
    ((i.result program state).1.executed ≤ i.fuse ∧
      i.result program state = j.result program state) ∨
    ((i.result program state).1.executed = i.fuse + 1 ∧
      i.fuse + 1 ≤ (j.result program state).1.executed ∧
      Counted j.fuse (j.start program state) (i.fuse + 1) (i.result program state)) := by
  have hstart : i.start program state = j.start program state := by
    unfold start freshMachine
    rw [hkinds, hsource]
  obtain ⟨n, last, hn, hl⟩ := i.execute_ends program state
  have hx := executed_of_visits hn
  have hnj : Reaches j.fuse (j.start program state) n last := hstart ▸ hn.mono hle
  -- The larger budget goes on from where the smaller one ends.
  have hj : j.result program state = last.1.run j.fuse last.2 := by
    rw [result_eq_run]
    exact hnj.run_eq
  obtain ⟨hc, hr⟩ | ⟨c, -, -, hr⟩ | ⟨c, hc, hi, hf, hr⟩ | ⟨c, -, -, -, hr⟩ :=
    round_cases i.fuse last
  · have hlast : i.result program state = last := (Outcome.over.inj (hr.symm.trans hl)).symm
    have hrj : Machine.round j.fuse last = .over last := by simp only [Machine.round, hc]
    left
    rw [hlast, hj, run_of_over hrj]
    exact ⟨hx, rfl⟩
  · cases hr.symm.trans hl
  · have hturn : i.result program state = last.1.turn c last.2 :=
      (Outcome.over.inj (hr.symm.trans hl)).symm
    have hcount : (last.1.turn c last.2).1.executed = last.1.executed + 1 := rfl
    have htrip : last.1.executed + 1 = i.fuse + 1 := by omega
    have hmore : (last.1.turn c last.2).1.executed ≤ (j.result program state).1.executed := by
      have hstate : (Machine.round j.fuse last).state = last.1.turn c last.2 :=
        state_round_of_command hc hi
      rw [hj, ← hstate]
      exact executed_round_le_run j.fuse last
    right
    rw [hturn]
    exact ⟨by omega, by omega, n, last, c, hnj, hc, hi, rfl, htrip⟩
  · cases hr.symm.trans hl

/-- Executions of one program from one source under two budgets. The count under the smaller budget
is that of the larger one, up to the point where the smaller fuse trips; the execution that it cuts
off is what the other holds right then, and one that it does not cut off is the other. The larger
count fits a word of 64 bits. -/
theorem execute_budget_mono {i j : Interpreter σ} (hkinds : i.options.kinds = j.options.kinds)
    (hsource : i.source = j.source)
    (hle : i.options.maxInstructions ≤ j.options.maxInstructions)
    (hfuse : j.options.maxInstructions.toNat < UInt64.size - 1) (program : Program)
    (state : Option Snapshot) :
    let small := i.result program state
    let large := j.result program state
    small.1.executed = min (i.options.maxInstructions.toNat + 1) large.1.executed ∧
    (small.1.executed = i.options.maxInstructions.toNat + 1 →
      ∀ t, Counted j.fuse (j.start program state) small.1.executed t ↔ t = small) ∧
    (small.1.executed ≤ i.options.maxInstructions.toNat → small = large) ∧
    large.1.executed < UInt64.size := by
  intro small large
  have hmax : i.fuse ≤ j.fuse := hle
  have hlarge : large.1.executed < UInt64.size :=
    countFits_of_budget hfuse program state large (.inr rfl)
  have hif : i.fuse = i.options.maxInstructions.toNat := rfl
  rw [← hif]
  obtain ⟨hx, heq⟩ | ⟨hx, hmore, hcut⟩ :=
    result_cases_of_budget_le hkinds hsource hmax program state
  · have hsmall : small.1.executed ≤ i.fuse := hx
    have hsl : small = large := heq
    refine ⟨?_, ?_, fun _ => hsl, hlarge⟩
    · rw [← hsl]
      omega
    · intro h
      omega
  · have hsmall : small.1.executed = i.fuse + 1 := hx
    have hml : i.fuse + 1 ≤ large.1.executed := hmore
    refine ⟨?_, ?_, ?_, hlarge⟩
    · omega
    · intro _ t
      rw [hsmall]
      exact ⟨fun h => h.unique hcut, fun h => h ▸ hcut⟩
    · intro h
      omega

/-- A loop that goes back for ever, cut off in its first pass by a budget of one out of one of
seven. -/
theorem execute_budget_mono_endless :
    let i : Interpreter Script := (ofSource { maxInstructions := 1 } ⟨[], []⟩).value
    let j : Interpreter Script := (ofSource { maxInstructions := 7 } ⟨[], []⟩).value
    let program : Program :=
      #[.noop, ⟨.literal .integer, "0", 0⟩, ⟨.cursor "goto", "cursor.goto", 0⟩]
    let small := i.result program none
    i.options.kinds = j.options.kinds ∧ i.source = j.source ∧
    i.options.maxInstructions ≤ j.options.maxInstructions ∧
    j.options.maxInstructions.toNat < UInt64.size - 1 ∧ small.1.executed = 2 ∧
    2 = min 2 (j.result program none).1.executed ∧
    ∀ t, Counted j.fuse (j.start program none) 2 t ↔ t = small := by
  intro i j program small
  have hkinds : i.options.kinds = j.options.kinds := by decide
  have hle : i.options.maxInstructions ≤ j.options.maxInstructions := by decide
  have hfuse : j.options.maxInstructions.toNat < UInt64.size - 1 := by decide
  obtain ⟨hcount, hcut, -⟩ := execute_budget_mono hkinds rfl hle hfuse program none
  have hrun : small.1.snapshot = .ofList [("boolean", []), ("float", []), ("integer", [])] ∧
      small.1.executed = 2 ∧ small.2 = ⟨[], []⟩ :=
    execute_of_runWithin? 3 (by decide +kernel)
  have hx : (i.result program none).1.executed = 2 := hrun.2.1
  simp only [hx] at hcount hcut
  exact ⟨hkinds, rfl, hle, hfuse, hx, hcount, hcut rfl⟩

end Interpreter
end StackMachine
