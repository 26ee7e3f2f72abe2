import StackMachine.Proofs.Forward

/-! Instructions that do nothing can be deleted from programs that do not count positions. The
machine that runs what is left of a program goes through the same stacks. -/
namespace StackMachine

theorem Verb.name_of_ofName? {name : String} {verb : Verb} (h : Verb.ofName? name = some verb) :
    verb.name = name := by
  have hfound := List.find?_some h
  exact of_decide_eq_true hfound

namespace Cursor

theorem ahead_advance {c : Cursor} {i : Instruction} (hl : c.landing = none)
    (hc : c.current? = some i) : c.ahead = i :: c.advance.ahead := by
  have hp := position_advance hl (position_lt_of_current? hc)
  rw [ahead_eq_cons hc, ahead, hp]
  rfl

theorem ahead_advance_finish (c : Cursor) : c.finish.advance.ahead = [] := by
  rw [ahead, position_advance_finish]
  exact List.drop_length

end Cursor

namespace Machine
open Memory

/-- A truth value decides alike on all machines with the same stacks. -/
theorem exists_whenTrue {X : Type} (memory : Memory X) :
    ∃ (taken : Bool) (rest : Memory X), ∀ (m : Machine X) (move : Machine X → Machine X),
      m.memory = memory → m.whenTrue move =
        if taken then move { m with memory := rest } else { m with memory := rest } := by
  cases hpop : (memory.typed? Bool (home Bool)).bind Stack.pop? with
  | none =>
    refine ⟨false, memory, ?_⟩
    intro m move hm
    subst hm
    simp only [whenTrue, pop?, hpop, Option.map_none]
    rfl
  | some p =>
    refine ⟨p.1, memory.put (home Bool) p.2, ?_⟩
    intro m move hm
    subst hm
    simp only [whenTrue, pop?, hpop, Option.map_some]
    cases p.1 <;> rfl

variable {σ : Type} [RandomSource σ]

/-- Where no verb counts positions, what an instruction does to the stacks and the source depends on
them alone, and the cursor stays or goes to the end. -/
theorem exists_perform {i : Instruction}
    (hi : ∀ verb ∈ [Verb.jump, .jumpIf, .skipIf], i.command ≠ .cursor verb.name)
    (memory : Memory Empty) (source : σ) :
    ∃ (finishes : Bool) (rest : Memory Empty) (source' : σ), ∀ m : Machine Empty,
      m.memory = memory → m.perform i source =
        ({ m with
            memory := rest
            cursor := if finishes then m.cursor.finish else m.cursor }, source') := by
  rcases i.isStraight_or_cursor with hstraight | ⟨name, hname⟩
  · refine ⟨false, (effect (memory, source) i).1, (effect (memory, source) i).2, ?_⟩
    rintro m rfl
    exact perform_eq_effect hstraight m source
  have hperform (m : Machine Empty) : m.perform i source = (m.steer name, source) := by
    simp only [perform, hname]
  simp only [hperform]
  cases hverb : Verb.ofName? name with
  | none =>
    refine ⟨false, memory, source, ?_⟩
    rintro m rfl
    simp only [steer, hverb]
    rfl
  | some verb =>
    have havoid (v : Verb) (hv : v ∈ [Verb.jump, .jumpIf, .skipIf]) : verb ≠ v := by
      rintro rfl
      exact hi verb hv (by rw [hname, Verb.name_of_ofName? hverb])
    cases verb with
    | finish =>
      refine ⟨true, memory, source, ?_⟩
      rintro m rfl
      simp only [steer, hverb]
      rfl
    | finishIf =>
      obtain ⟨taken, rest, h⟩ := exists_whenTrue memory
      refine ⟨taken, rest, source, ?_⟩
      intro m hm
      simp only [steer, hverb, follow, h m _ hm]
      cases taken <;> rfl
    | jump => exact absurd rfl (havoid .jump (by simp))
    | jumpIf => exact absurd rfl (havoid .jumpIf (by simp))
    | skipIf => exact absurd rfl (havoid .skipIf (by simp))

/-- Two machines with the same stacks and the same count. What the second has ahead is what the
first has ahead, without the instructions that do nothing. -/
structure Compacts (full compact : Machine Empty) : Prop where
  avoids : full.cursor.program.Avoids [.jump, .jumpIf, .skipIf]
  memory_eq : compact.memory = full.memory
  executed_eq : compact.executed = full.executed
  landing_full : full.cursor.landing = none
  landing_compact : compact.cursor.landing = none
  ahead_eq : compact.cursor.ahead = full.cursor.ahead.filter Instruction.counts

variable {full compact : Machine Empty} {i : Instruction}

theorem Compacts.pass (h : Compacts full compact) (hc : full.cursor.current? = some i)
    (hi : i.command = .noop) : Compacts full.pass compact := by
  have hahead : full.cursor.ahead = i :: full.pass.cursor.ahead :=
    Cursor.ahead_advance h.landing_full hc
  have hcounts : ¬i.counts = true := by simp [Instruction.counts, hi]
  refine ⟨h.avoids, h.memory_eq, h.executed_eq, rfl, h.landing_compact, ?_⟩
  rw [h.ahead_eq, hahead, List.filter_cons_of_neg hcounts]

theorem Compacts.ahead_eq_cons (h : Compacts full compact) (hc : full.cursor.current? = some i)
    (hi : i.command ≠ .noop) :
    compact.cursor.ahead = i :: full.cursor.advance.ahead.filter Instruction.counts := by
  have hcounts : i.counts = true := by simp [Instruction.counts, hi]
  rw [h.ahead_eq, Cursor.ahead_advance h.landing_full hc, List.filter_cons_of_pos hcounts]

theorem Compacts.current? (h : Compacts full compact) (hc : full.cursor.current? = some i)
    (hi : i.command ≠ .noop) : compact.cursor.current? = some i :=
  current?_of_drop (h.ahead_eq_cons hc hi)

theorem Compacts.turn (h : Compacts full compact) (hc : full.cursor.current? = some i)
    (hi : i.command ≠ .noop) (source : σ) :
    Compacts (full.turn i source).1 (compact.turn i source).1 ∧
      (compact.turn i source).2 = (full.turn i source).2 := by
  have hmem : i ∈ full.cursor.program := Array.mem_of_getElem? hc
  obtain ⟨finishes, rest, source', hall⟩ := exists_perform (h.avoids i hmem) full.memory source
  have hfull := hall full rfl
  have hcompact := hall compact h.memory_eq
  have hprogram : (full.turn i source).1.cursor.program = full.cursor.program :=
    program_perform full i source
  have hahead : compact.cursor.advance.ahead =
      full.cursor.advance.ahead.filter Instruction.counts := by
    have hcons := Cursor.ahead_advance h.landing_compact (h.current? hc hi)
    rw [h.ahead_eq_cons hc hi] at hcons
    exact (List.cons.inj hcons).2.symm
  refine ⟨⟨hprogram ▸ h.avoids, ?_, congrArg (· + 1) h.executed_eq, rfl, rfl, ?_⟩, ?_⟩
  · simp only [Machine.turn, hfull, hcompact]
  · simp only [Machine.turn, hfull, hcompact]
    cases finishes with
    | false => exact hahead
    | true =>
      simp only [if_true, Cursor.ahead_advance_finish]
      rfl
  · simp only [Machine.turn, hfull, hcompact]

/-- Both machines end alike, whether at the end of their programs or with the fuse. -/
theorem Compacts.run (h : Compacts full compact) (fuse : Nat) (source : σ) :
    Compacts (full.run fuse source).1 (compact.run fuse source).1 ∧
      (compact.run fuse source).2 = (full.run fuse source).2 := by
  -- The longer run leads. While it passes over instructions the other one waits.
  fun_induction Machine.run fuse full source generalizing compact with
  | case1 full source hc =>
    have hnil : compact.cursor.current? = none := by
      rw [← Cursor.ahead_eq_nil_iff, h.ahead_eq, Cursor.ahead_eq_nil_iff.mpr hc]
      rfl
    rw [run_of_over (round_of_end (s := (compact, source)) fuse hnil)]
    exact ⟨h, rfl⟩
  | case2 full source i hc hi ih => exact ih (h.pass hc hi)
  | case3 full source i hc hi next =>
    rename_i hf
    obtain ⟨hnext, hsource⟩ := h.turn hc hi source
    have hround : round fuse (compact, source) = .over (compact.turn i source) := by
      simp only [round, h.current? hc hi, hi, if_false]
      exact if_pos (hnext.executed_eq ▸ hf)
    rw [run_of_over hround]
    exact ⟨hnext, hsource⟩
  | case4 full source i hc hi next =>
    rename_i hf ih
    obtain ⟨hnext, hsource⟩ := h.turn hc hi source
    have hround : round fuse (compact, source) = .again (compact.turn i source) := by
      simp only [round, h.current? hc hi, hi, if_false]
      exact if_neg (hnext.executed_eq ▸ hf)
    rw [run_of_again hround, hsource]
    exact ih hnext

end Machine

namespace Interpreter
variable {σ : Type} [RandomSource σ]
open Machine

omit [RandomSource σ] in
theorem compacts_start (i : Interpreter σ) {program : Program} (state : Option Snapshot)
    (hprogram : program.Avoids [.jump, .jumpIf, .skipIf]) :
    Compacts (i.start program state).1
      (i.start (program.filter Instruction.counts) state).1 where
  avoids := hprogram
  memory_eq := rfl
  executed_eq := rfl
  landing_full := rfl
  landing_compact := rfl
  ahead_eq := Array.toList_filter

/-- Instructions that do nothing are free: a program whose verbs end it or are unknown leaves the
same stacks, the same count and the same source when they are deleted, under every budget. -/
theorem execute_compact (i : Interpreter σ) {program : Program} (state : Option Snapshot)
    (hprogram : program.Avoids [.jump, .jumpIf, .skipIf]) :
    let full := i.result program state
    let compact := i.result (program.filter Instruction.counts) state
    compact.1.memory = full.1.memory ∧ compact.1.executed = full.1.executed ∧
    compact.2 = full.2 := by
  intro full compact
  obtain ⟨hend, hsource⟩ := (i.compacts_start state hprogram).run i.fuse i.source
  have hfull : full = (i.start program state).1.run i.fuse i.source := i.result_eq_run program state
  have hcompact : compact =
      (i.start (program.filter Instruction.counts) state).1.run i.fuse i.source :=
    i.result_eq_run _ state
  rw [hfull, hcompact]
  exact ⟨hend.memory_eq, hend.executed_eq, hsource⟩

/-- The fuse trips in the middle of a program with a draw, an unknown verb and an end that is not
taken. -/
theorem execute_compact_at_fuse :
    let i : Interpreter Script := (ofSource { maxInstructions := 3 } ⟨[7, 8], []⟩).value
    let rand : Instruction := ⟨.call "integer" "rand", "integer.rand", 0⟩
    let hop : Instruction := ⟨.cursor "hop", "cursor.hop", 0⟩
    let endIf : Instruction := ⟨.cursor "endif", "cursor.endif", 0⟩
    let program : Program := #[.noop, hop, .noop, .noop, endIf, rand, .noop, endIf, .noop, rand]
    let state : Snapshot := .ofList [("boolean", [.boolean true, .boolean false])]
    let full := i.result program (some state)
    let compact := i.result #[hop, endIf, rand, endIf, rand] (some state)
    program.Avoids [.jump, .jumpIf, .skipIf] ∧
    compact.1.memory = full.1.memory ∧ compact.1.executed = full.1.executed ∧
    compact.2 = full.2 ∧
    full.1.snapshot = .ofList [("boolean", []), ("float", []), ("integer", [.integer 7])] ∧
    full.1.executed = 4 ∧ full.2 = ⟨[8], []⟩ := by
  intro i rand hop endIf program state full compact
  have hprogram : program.Avoids [.jump, .jumpIf, .skipIf] := by decide
  have hfilter : program.filter Instruction.counts = #[hop, endIf, rand, endIf, rand] := by decide
  obtain ⟨hmemory, hexecuted, hsource⟩ := execute_compact i (some state) hprogram
  rw [hfilter] at hmemory hexecuted hsource
  have hfull : full.1.snapshot =
        .ofList [("boolean", []), ("float", []), ("integer", [.integer 7])] ∧
      full.1.executed = 4 ∧ full.2 = ⟨[8], []⟩ :=
    execute_of_runWithin? 10 (by decide +kernel)
  exact ⟨hprogram, hmemory, hexecuted, hsource, hfull⟩

end Interpreter
end StackMachine
