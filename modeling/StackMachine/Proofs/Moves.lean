import Mathlib.Data.List.Induction
import StackMachine.Cursor

/-! Cursors under any sequence of moves. The position and a pending landing never leave the program
that was loaded last, and the next advance after a jump lands on its target. -/
namespace StackMachine.Cursor

/-- What a host can do to a cursor. -/
inductive Move where
  | load (program : Program)
  | advance
  | skip
  | jumpTo (target : Nat)
  | finish

namespace Move

def apply (c : Cursor) : Move → Cursor
  | .load program => .load program
  | .advance => c.advance
  | .skip => c.skip
  | .jumpTo target => c.jumpTo target
  | .finish => c.finish

def program? : Move → Option Program
  | .load program => some program
  | _ => none

/-- Whether a move decides anew where the next advance lands, or is that advance. All moves do so but
skips and jumps past the end of a program, which has the given length. -/
def settlesLanding (length : Nat) : Move → Bool
  | .skip => false
  | .jumpTo target => target ≤ length
  | _ => true

end Move

/-- The cursor after some moves. -/
def after (c : Cursor) (moves : List Move) : Cursor := moves.foldl Move.apply c

/-- The program that some moves loaded last; it is empty if none was loaded. -/
def lastLoaded (moves : List Move) : Program := (moves.filterMap Move.program?).getLast?.getD #[]

/-- The position and the landing lie in the program or at its end. -/
structure Within (c : Cursor) : Prop where
  position_le : c.position ≤ c.length
  landing_le : ∀ target ∈ c.landing, target ≤ c.length

theorem after_append (c : Cursor) (first second : List Move) :
    c.after (first ++ second) = (c.after first).after second := List.foldl_append

theorem jumpTo_of_le {c : Cursor} {target : Nat} (h : target ≤ c.length) :
    c.jumpTo target = { c with landing := some target } := if_pos h

theorem jumpTo_of_lt {c : Cursor} {target : Nat} (h : c.length < target) : c.jumpTo target = c :=
  if_neg (Nat.not_le.mpr h)

/-- No move leaves the program. A load does not need what held before it, and every other move keeps
the program. -/
theorem Within.apply {c : Cursor} (h : c.Within) (m : Move) : (m.apply c).Within := by
  cases m with
  | load program => exact ⟨Nat.zero_le _, fun target ht => nomatch ht⟩
  | advance => exact ⟨c.position_advance_le, fun target ht => nomatch ht⟩
  | skip => exact ⟨Nat.min_le_right _ _, h.landing_le⟩
  | jumpTo target =>
    by_cases ht : target ≤ c.length
    · rw [Move.apply, jumpTo_of_le ht]
      refine ⟨h.position_le, fun other ho => ?_⟩
      cases ho
      exact ht
    · rw [Move.apply, jumpTo_of_lt (Nat.not_le.mp ht)]
      exact h
  | finish =>
    refine ⟨Nat.le_refl _, fun target ht => ?_⟩
    cases ht
    exact Nat.le_refl _

theorem Within.after {c : Cursor} (h : c.Within) (moves : List Move) : (c.after moves).Within := by
  induction moves generalizing c with
  | nil => exact h
  | cons m moves ih => exact ih (h.apply m)

theorem program_apply (c : Cursor) (m : Move) :
    (m.apply c).program = m.program?.getD c.program := by
  cases m with
  | jumpTo target => exact c.program_jumpTo target
  | _ => rfl

theorem program_after (moves : List Move) :
    (({} : Cursor).after moves).program = lastLoaded moves := by
  induction moves using List.reverseRecOn with
  | nil => rfl
  | append_singleton moves m ih =>
    have hlast : lastLoaded (moves ++ [m]) = m.program?.getD (lastLoaded moves) := by
      unfold lastLoaded
      rw [List.filterMap_append, List.getLast?_append]
      cases hm : m.program? with
      | none => simp [hm]
      | some program => simp [hm]
    rw [after_append, hlast, ← ih]
    exact program_apply _ m

/-- A move that does not decide about the next landing changes neither it nor the program. -/
theorem apply_of_not_settles {c : Cursor} {m : Move} (h : m.settlesLanding c.length = false) :
    (m.apply c).program = c.program ∧ (m.apply c).landing = c.landing := by
  cases m with
  | skip => exact ⟨rfl, rfl⟩
  | jumpTo target =>
    have ht : c.length < target := Nat.not_le.mp (of_decide_eq_false h)
    rw [Move.apply, jumpTo_of_lt ht]
    exact ⟨rfl, rfl⟩
  | _ => exact nomatch h

theorem after_of_not_settles {c : Cursor} {moves : List Move}
    (h : ∀ m ∈ moves, m.settlesLanding c.length = false) :
    (c.after moves).program = c.program ∧ (c.after moves).landing = c.landing := by
  induction moves generalizing c with
  | nil => exact ⟨rfl, rfl⟩
  | cons m moves ih =>
    obtain ⟨hprogram, hlanding⟩ := apply_of_not_settles (h m List.mem_cons_self)
    have hlength : (m.apply c).length = c.length := congrArg Array.size hprogram
    obtain ⟨hprogram', hlanding'⟩ := ih (c := m.apply c) fun other ho => by
      rw [hlength]
      exact h other (List.mem_cons_of_mem _ ho)
    exact ⟨hprogram'.trans hprogram, hlanding'.trans hlanding⟩

/-- The next advance after a jump ends on its target, whatever was skipped on the way. -/
theorem after_jumpTo_advance {c : Cursor} {target : Nat} (ht : target ≤ c.length)
    {between : List Move} (hb : ∀ m ∈ between, m.settlesLanding c.length = false) :
    c.after (.jumpTo target :: between ++ [.advance]) = ⟨c.program, target, none⟩ := by
  have hjump : (c.after [.jumpTo target]) = { c with landing := some target } := jumpTo_of_le ht
  obtain ⟨hprogram, hlanding⟩ := after_of_not_settles (c := { c with landing := some target }) hb
  rw [← List.singleton_append, List.append_assoc, after_append, hjump, after_append]
  generalize ({ c with landing := some target } : Cursor).after between = d at hprogram hlanding
  have hlength : d.length = c.length := congrArg Array.size hprogram
  show d.advance = _
  unfold advance
  rw [hlanding, hlength, Option.getD_some, Nat.min_eq_left ht, hprogram]

/-- After any moves the position and the landing lie within the program that was loaded last, and
the cursor is finished exactly if there is no instruction at hand. The next advance after a jump
within the program ends on the target, and a jump past the end does nothing. -/
theorem after_within (moves : List Move) :
    let c := ({} : Cursor).after moves
    c.program = lastLoaded moves ∧ c.Within ∧ (c.isFinished = true ↔ c.current? = none) ∧
    (∀ target ≤ c.length, ∀ between : List Move,
      (∀ m ∈ between, m.settlesLanding c.length = false) →
      c.after (.jumpTo target :: between ++ [.advance]) = ⟨c.program, target, none⟩) ∧
    ∀ target, c.length < target → c.after [.jumpTo target] = c := by
  intro c
  have hstart : ({} : Cursor).Within := ⟨Nat.le_refl _, fun target ht => nomatch ht⟩
  refine ⟨program_after moves, hstart.after moves, ?_, ?_, ?_⟩
  · rw [current?_eq_none_iff]
    exact decide_eq_true_iff
  · intro target ht between hb
    exact after_jumpTo_advance ht hb
  · intro target ht
    exact jumpTo_of_lt ht

/-- A jump back over skips and over a jump past the end, in the second program that was loaded. -/
theorem after_within_skips_between :
    let program : Program := #[.noop, .noop, .noop]
    let c := ({} : Cursor).after [.load #[.noop], .finish, .load program, .advance, .skip]
    (1 ≤ c.length ∧ c.length < 4) ∧ c.position = 2 ∧
    c.after [.jumpTo 1, .skip, .jumpTo 4, .skip, .advance] = ⟨program, 1, none⟩ := by
  intro program c
  obtain ⟨-, -, -, hlands, -⟩ :=
    after_within [.load #[.noop], .finish, .load program, .advance, .skip]
  refine ⟨by decide, rfl, hlands 1 (by decide) [.skip, .jumpTo 4, .skip] ?_⟩
  decide

end StackMachine.Cursor
