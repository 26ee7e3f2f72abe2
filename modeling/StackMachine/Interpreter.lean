import StackMachine.Machine.Run
import StackMachine.Machine.Seed
import StackMachine.Options
import StackMachine.Random.Keystream
import StackMachine.Vocabulary

/-! Interpreters, which read programs and run them on fresh machines. -/
namespace StackMachine

/-- Valid options, the words they make known, and a random source that one run hands on to the
next. -/
structure Interpreter (σ : Type) where
  options : Options
  vocabulary : Vocabulary
  source : σ

/-- Every call that a machine can answer, in the order of the stack names and of the operation
names, then the verbs of the cursor. -/
def Vocabulary.ofMachine {X : Type} (m : Machine X) : Vocabulary :=
  let calls := m.memory.entries.flatMap fun (name, t) => t.operations.names.map (name, ·)
  let verbs := Verb.all.map fun verb => (cursorName, verb.name)
  (calls ++ verbs).foldl (fun v (stack, function) => v.register stack function) {}

namespace Interpreter
variable {σ : Type} [RandomSource σ]

/-- The machine on which a run starts. -/
def freshMachine (options : Options) : Machine Empty := .ofKinds options.kinds

/-- An interpreter with validated options. -/
def ofSource (options : Options) (source : σ) : Logged (Interpreter σ) := do
  let options ← options.validate
  return { options, vocabulary := .ofMachine (freshMachine options), source }

/-- An interpreter whose random source starts from a seed. -/
def ofSeed (options : Options) (seed : UInt64) : Logged (Interpreter Keystream) :=
  ofSource options (.ofSeed seed)

/-- Runs a program on a fresh machine, seeded from a snapshot if there is one. -/
def execute (i : Interpreter σ) (program : Program) (state : Option Snapshot) :
    Logged (Machine Empty × Interpreter σ) := do
  let m ← match state with
    | some state => (freshMachine i.options).seed state
    | none => pure (freshMachine i.options)
  let m := m.moveCursor fun _ => .load program
  Logged.tell .debug ("Running " ++ toString program.size ++ " instruction(s)")
  let fuse := i.options.maxInstructions.toNat
  let (m, source) := m.run fuse i.source
  Logged.tellIf (fuse < m.executed) .debug ("Fuse tripped after " ++ toString m.executed
    ++ " instruction(s) at position " ++ toString m.cursor.position)
  Logged.tell .debug ("Run finished after " ++ toString m.executed ++ " instruction(s)")
  return (m, { i with source })

/-- Reads a text and runs it. -/
def run (i : Interpreter σ) (text : String) : Logged (Machine Empty × Interpreter σ) := do
  i.execute (← i.vocabulary.read text) none

/-- Reads tokens and runs them. -/
def runCode (i : Interpreter σ) (code : Code) : Logged (Machine Empty × Interpreter σ) := do
  i.execute (← i.vocabulary.readTokens code.tokens) none

/-- Reads a text and runs it on stacks filled from a snapshot. -/
def runWithState (i : Interpreter σ) (text : String) (state : Snapshot) :
    Logged (Machine Empty × Interpreter σ) := do
  i.execute (← i.vocabulary.read text) (some state)

end Interpreter
end StackMachine
