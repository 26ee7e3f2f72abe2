import StackMachine.Machine

/-! Filling the stacks of a machine from a snapshot. -/
namespace StackMachine
variable {X : Type}

/-- Pushes an element that the kind of the stack adopts. -/
def TypedStack.adopt? (t : TypedStack X) (e : Element) : Option (TypedStack X) :=
  ((t.kind.adopt? e).bind t.contents.push?).map fun contents => { t with contents }

/-- Pushes the elements that the stack adopts, and counts the others. -/
def TypedStack.seed (t : TypedStack X) (elements : List Element) : TypedStack X × Nat :=
  elements.foldl (fun (t, rejected) e =>
    match t.adopt? e with
    | some t => (t, rejected)
    | none => (t, rejected + 1)) (t, 0)

namespace Machine

/-- The warning about a stack that does not exist. -/
def unknownStack (name : String) : Logged Unit :=
  .tell .warn ("Seed names unknown stack '" ++ name ++ "', skipping")

/-- The warning about elements that a stack does not take. -/
def rejectedElements (count : Nat) (kind : Kind) (name : String) : Logged Unit :=
  .tellIf (0 < count) .warn ("Seed skipped " ++ toString count ++ " element(s) not of kind "
    ++ kind.name ++ " on stack '" ++ name ++ "'")

/-- Seeds one stack. -/
def seedStack (m : Machine X) (entry : String × List Element) : Logged (Machine X) :=
  match m.memory.get? entry.1 with
  | none => do
    unknownStack entry.1
    return m
  | some t => do
    let (seeded, rejected) := t.seed entry.2
    rejectedElements rejected t.kind entry.1
    return { m with memory := m.memory.insert entry.1 seeded }

/-- Pushes the elements of a snapshot on the stacks of the same names, in the order of the names.
Integers on a float stack become floats; unknown stacks and elements of another kind are left
out with a warning. -/
def seed (m : Machine X) (state : Snapshot) : Logged (Machine X) := do
  let seeded ← state.entries.foldlM seedStack m
  let known := state.names.countP m.memory.contains
  Logged.tell .debug ("Seeded " ++ toString known ++ " stack(s)")
  return seeded

theorem value_seed (m : Machine X) (state : Snapshot) :
    (m.seed state).value = state.entries.foldl (fun m e => (m.seedStack e).value) m :=
  Logged.value_foldlM seedStack m state.entries

/-- What seeding single stacks preserves, seeding preserves. -/
theorem seed_preserves {P : Machine X → Prop} (h : ∀ m e, P m → P (m.seedStack e).value)
    (m : Machine X) (state : Snapshot) (hm : P m) : P (m.seed state).value := by
  rw [value_seed]
  generalize state.entries = entries
  induction entries generalizing m with
  | nil => exact hm
  | cons e entries ih => exact ih _ (h m e hm)

theorem executed_seedStack (m : Machine X) (entry : String × List Element) :
    (m.seedStack entry).value.executed = m.executed := by
  unfold seedStack
  split <;> rfl

theorem executed_seed (m : Machine X) (state : Snapshot) :
    (m.seed state).value.executed = m.executed := by
  refine seed_preserves (P := fun n => n.executed = m.executed) ?_ m state rfl
  intro n e hn
  rw [executed_seedStack, hn]

end Machine
end StackMachine
