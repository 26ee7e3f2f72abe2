import StackMachine.Proofs.Atomicity
import StackMachine.Proofs.Termination

/-! Where the verbs of the cursor lead in one round, and what they take from the stacks. -/
namespace StackMachine

namespace Memory
variable {X : Type}

/-- The top of the standard stack of a carrier was taken, or there was none to take. -/
def Pops {α : Type} [Carrier α] (a : Option α) (m m' : Memory X) : Prop :=
  match a with
  | some a => m.Replaces (home α) [Carrier.element a] (home α) [] m'
  | none => m.holds (home α) (Carrier.kind α) 1 = false ∧ m' = m

/-- An integer was taken if there was one. It is the next position if the program reaches so far. -/
def Jumps (length : Nat) (m : Memory X) (position : Nat) (m' : Memory X) (next : Nat) : Prop :=
  ∃ target : Option Int64, m.Pops target m' ∧ next = match target with
    | some t => if 0 ≤ t.toInt ∧ t.toInt ≤ length then t.toInt.toNat else position + 1
    | none => position + 1

/-- What a verb does to the stacks and to the position in a program of some length. -/
def Steers (verb : String) (length : Nat) (m : Memory X) (position : Nat) (m' : Memory X)
    (next : Nat) : Prop :=
  match verb with
  | "skipif" => ∃ b : Option Bool, m.Pops b m' ∧
      next = if b = some true then min (position + 2) length else position + 1
  | "end" => m' = m ∧ next = length
  | "endif" => ∃ b : Option Bool, m.Pops b m' ∧
      next = if b = some true then length else position + 1
  | "goto" => m.Jumps length position m' next
  | "gotoif" => ∃ (b : Option Bool) (rest : Memory X), m.Pops b rest ∧
      if b = some true then rest.Jumps length position m' next
      else m' = rest ∧ next = position + 1
  | _ => m' = m ∧ next = position + 1

end Memory

theorem Verb.ofName?_eq_none {name : String} (h : ∀ verb : Verb, verb.name ≠ name) :
    Verb.ofName? name = none := by
  unfold Verb.ofName?
  rw [List.find?_eq_none]
  intro verb _
  simpa using h verb

namespace Cursor

theorem position_advance {c : Cursor} (hl : c.landing = none) (hp : c.position < c.length) :
    c.advance.position = c.position + 1 := by
  unfold advance
  rw [hl, Option.getD_none]
  exact Nat.min_eq_left hp

theorem position_advance_skip {c : Cursor} (hl : c.landing = none) (hp : c.position < c.length) :
    c.skip.advance.position = min (c.position + 2) c.length := by
  have hskip : c.skip.advance.position = min (c.landing.getD (c.skip.position + 1)) c.length := rfl
  have hpos : c.skip.position = min (c.position + 1) c.length := rfl
  rw [hskip, hl, Option.getD_none, hpos]
  omega

theorem position_advance_finish (c : Cursor) : c.finish.advance.position = c.length :=
  Nat.min_self _

/-- A jump lands exactly on its target, the end of the program included; a target beyond the end
is as good as no jump. -/
theorem position_advance_jumpTo {c : Cursor} (hl : c.landing = none) (hp : c.position < c.length)
    (target : Nat) : (c.jumpTo target).advance.position =
      if target ≤ c.length then target else c.position + 1 := by
  unfold jumpTo
  split
  · rename_i ht
    exact Nat.min_eq_left ht
  · exact position_advance hl hp

end Cursor

namespace Machine
variable {X : Type}
open Memory

theorem pop?_cases {α : Type} [Carrier α] [LawfulCarrier α] (m : Machine X) :
    (∃ (a : α) (rest : Memory X), m.pop? α = some (a, { m with memory := rest }) ∧
      m.memory.Pops (some a) rest) ∨
    (m.pop? α = none ∧ m.memory.Pops (none : Option α) m.memory) := by
  unfold pop?
  cases h : m.memory.holds (home α) (Carrier.kind α) 1 with
  | true =>
    obtain ⟨a, rest, hs, hp⟩ := exists_pop?_of_holds h
    rw [hp]
    exact .inl ⟨a, m.memory.put (home α) rest, rfl, replaces_put [a] [] hs⟩
  | false =>
    rw [bind_pop?_of_not_holds h]
    exact .inr ⟨rfl, h, rfl⟩

/-- A truth value is taken whatever it is, and decides about the move. -/
theorem whenTrue_eq (m : Machine X) (move : Machine X → Machine X) :
    ∃ (b : Option Bool) (rest : Memory X), m.memory.Pops b rest ∧
      m.whenTrue move = if b = some true then move { m with memory := rest }
        else { m with memory := rest } := by
  unfold whenTrue
  obtain ⟨b, rest, hpop, h⟩ | ⟨hpop, h⟩ := m.pop?_cases (α := Bool)
  · refine ⟨some b, rest, h, ?_⟩
    rw [hpop]
    cases b <;> rfl
  · exact ⟨none, m.memory, h, by rw [hpop]; rfl⟩

/-- A truth value decides about a move of the cursor alone. -/
theorem whenTrue_moveCursor (m : Machine X) (f : Cursor → Cursor) :
    ∃ b : Option Bool, m.memory.Pops b (m.whenTrue (·.moveCursor f)).memory ∧
      (m.whenTrue (·.moveCursor f)).cursor = if b = some true then f m.cursor else m.cursor := by
  obtain ⟨b, rest, hb, h⟩ := m.whenTrue_eq (·.moveCursor f)
  refine ⟨b, ?_, ?_⟩
  · rw [h]
    split <;> exact hb
  · rw [h]
    split <;> rfl

/-- An integer is taken even if it is no position. -/
theorem jump_eq (m : Machine X) :
    ∃ (target : Option Int64) (rest : Memory X), m.memory.Pops target rest ∧
      m.jump.memory = rest ∧ m.jump.cursor = match target with
        | some t => if 0 ≤ t.toInt then m.cursor.jumpTo t.toInt.toNat else m.cursor
        | none => m.cursor := by
  unfold jump
  obtain ⟨t, rest, hpop, h⟩ | ⟨hpop, h⟩ := m.pop?_cases (α := Int64)
  · refine ⟨some t, rest, h, ?_⟩
    simp only [hpop]
    split <;> exact ⟨rfl, rfl⟩
  · refine ⟨none, m.memory, h, ?_⟩
    simp only [hpop, and_self]

theorem jumps_jump {m : Machine X} (hl : m.cursor.landing = none)
    (hp : m.cursor.position < m.cursor.length) :
    m.memory.Jumps m.cursor.length m.cursor.position m.jump.memory
      m.jump.cursor.advance.position := by
  obtain ⟨target, rest, h, hmem, hcur⟩ := m.jump_eq
  refine ⟨target, hmem ▸ h, ?_⟩
  rw [hcur]
  cases target with
  | none => exact Cursor.position_advance hl hp
  | some t =>
    simp only
    by_cases ht : 0 ≤ t.toInt
    · have hle : t.toInt.toNat ≤ m.cursor.length ↔ t.toInt ≤ m.cursor.length := by omega
      rw [if_pos ht, Cursor.position_advance_jumpTo hl hp]
      simp only [hle, ht, true_and]
    · rw [if_neg ht, if_neg fun h => ht h.1]
      exact Cursor.position_advance hl hp

/-- A verb leads where it should as long as no jump is pending. -/
theorem steers_steer {m : Machine X} (verb : String) (hl : m.cursor.landing = none)
    (hp : m.cursor.position < m.cursor.length) :
    Steers verb m.cursor.length m.memory m.cursor.position (m.steer verb).memory
      (m.steer verb).cursor.advance.position := by
  have hnext := Cursor.position_advance hl hp
  unfold Steers
  split
  · obtain ⟨b, hb, hcursor⟩ := m.whenTrue_moveCursor Cursor.skip
    have hs : m.steer "skipif" = m.whenTrue (·.moveCursor Cursor.skip) := rfl
    rw [hs]
    refine ⟨b, hb, ?_⟩
    rw [hcursor]
    split
    · exact Cursor.position_advance_skip hl hp
    · exact hnext
  · exact ⟨rfl, Cursor.position_advance_finish m.cursor⟩
  · obtain ⟨b, hb, hcursor⟩ := m.whenTrue_moveCursor Cursor.finish
    have hs : m.steer "endif" = m.whenTrue (·.moveCursor Cursor.finish) := rfl
    rw [hs]
    refine ⟨b, hb, ?_⟩
    rw [hcursor]
    split
    · exact Cursor.position_advance_finish m.cursor
    · exact hnext
  · exact jumps_jump hl hp
  · obtain ⟨b, rest, hb, h⟩ := m.whenTrue_eq jump
    have hs : m.steer "gotoif" = m.whenTrue jump := rfl
    refine ⟨b, rest, hb, ?_⟩
    rw [hs, h]
    split
    · exact jumps_jump (m := { m with memory := rest }) hl hp
    · exact ⟨rfl, hnext⟩
  · rename_i hskipif hend hendif hgoto hgotoif
    have hv : Verb.ofName? verb = none := by
      refine Verb.ofName?_eq_none fun v hv => ?_
      subst hv
      cases v with
      | finish => exact hend rfl
      | finishIf => exact hendif rfl
      | jump => exact hgoto rfl
      | jumpIf => exact hgotoif rfl
      | skipIf => exact hskipif rfl
    unfold steer
    rw [hv]
    exact ⟨rfl, hnext⟩

end Machine

namespace Interpreter
variable {σ : Type} [RandomSource σ]
open Machine

/-- In every round of every execution a verb takes what it should from the stacks and leads where
it should. It counts as one instruction, draws nothing, and leaves no jump pending. -/
theorem round_of_verb (i : Interpreter σ) (program : Program) (state : Option Snapshot) {n : Nat}
    {s : Machine Empty × σ} {instruction : Instruction} {verb : String}
    (hs : i.Visits program state n s) (hc : s.1.cursor.current? = some instruction)
    (hv : instruction.command = .cursor verb) :
    let next := (round i.fuse s).state
    s.1.cursor.position < program.size ∧
    Memory.Steers verb program.size s.1.memory s.1.cursor.position next.1.memory
      next.1.cursor.position ∧
    next.1.executed = s.1.executed + 1 ∧ next.1.cursor.landing = none ∧
    next.1.cursor.program = program ∧ next.2 = s.2 := by
  have hin := hs.inProgram
  have hp := Cursor.position_lt_of_current? hc
  have hlen : s.1.cursor.length = program.size := by rw [Cursor.length, hin.program_eq]
  have hround : (round i.fuse s).state = s.1.turn instruction s.2 :=
    state_round_of_command hc (by rw [hv]; exact Command.noConfusion)
  have hturn : s.1.turn instruction s.2 =
      ({ s.1.steer verb with
          cursor := (s.1.steer verb).cursor.advance, executed := s.1.executed + 1 }, s.2) := by
    simp only [turn, perform, hv]
  have hsteers := steers_steer verb hin.landing_eq hp
  intro next
  have hnext : next = s.1.turn instruction s.2 := hround
  rw [hnext, hturn, ← hlen]
  exact ⟨hp, hsteers, rfl, rfl, (program_steer s.1 verb).trans hin.program_eq, rfl⟩

/-- A conditional jump from the only instruction of a program to its end. -/
theorem round_of_verb_to_end :
    let i : Interpreter Script := (ofSource {} ⟨[], []⟩).value
    let program : Program := #[⟨.cursor "gotoif", "cursor.gotoif", 0⟩]
    let state : Snapshot := .ofList [("boolean", [.boolean true]), ("integer", [.integer 1])]
    let s := i.start program (some state)
    let next := (round i.fuse s).state
    i.Visits program (some state) 0 s ∧
    s.1.cursor.current? = some ⟨.cursor "gotoif", "cursor.gotoif", 0⟩ ∧
    Memory.Steers "gotoif" 1 s.1.memory 0 next.1.memory next.1.cursor.position ∧
    next.1.cursor.position = 1 ∧ next.1.elements? "integer" = some [] := by
  intro i program state s next
  have hs : i.Visits program (some state) 0 s := .refl
  have hc : s.1.cursor.current? = some ⟨.cursor "gotoif", "cursor.gotoif", 0⟩ := rfl
  have h := round_of_verb i program (some state) hs hc rfl
  exact ⟨hs, hc, h.2.1, by decide, by decide⟩

end Interpreter
end StackMachine
