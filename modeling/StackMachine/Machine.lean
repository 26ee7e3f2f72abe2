import StackMachine.Cursor
import StackMachine.Log
import StackMachine.Builtin

/-! The machine: named stacks, a cursor, and a count of what was executed. -/
namespace StackMachine

/-- Everything that a run changes, the random source apart. -/
structure Machine (X : Type) where
  memory : Memory X
  cursor : Cursor := {}
  /-- How many instructions were executed. The count has no bound of its own; the fuse keeps it in a
  word of 64 bits unless the fuse is the greatest word. -/
  executed : Nat := 0

/-- The meaning of the operations that an embedding program supplies. -/
class Host (X : Type) where
  /-- Runs an operation that was called on the stack of the given name. -/
  act : {σ : Type} → [RandomSource σ] → X → String → Machine X → σ → Machine X × σ

/-- No operations are supplied. -/
instance : Host Empty := ⟨fun op => nomatch op⟩

/-- The contents of stacks by name, from the bottom up. -/
abbrev Snapshot := NameMap (List Element)

/-- The verbs that steer a cursor. -/
inductive Verb where
  | finish
  | finishIf
  | jump
  | jumpIf
  | skipIf
deriving DecidableEq, Repr

namespace Verb

def name : Verb → String
  | .finish => "end"
  | .finishIf => "endif"
  | .jump => "goto"
  | .jumpIf => "gotoif"
  | .skipIf => "skipif"

/-- Every verb, in the order of the names. -/
def all : List Verb := [.finish, .finishIf, .jump, .jumpIf, .skipIf]

/-- The verb of a name. -/
def ofName? (name : String) : Option Verb := all.find? (·.name = name)

end Verb

namespace Machine
variable {X σ : Type} [Host X] [RandomSource σ]

/-- A machine with one empty stack for each kind, named after it. -/
def ofKinds (kinds : List Kind) : Machine X where
  memory := .ofList (kinds.map fun kind => (kind.name, .standard kind))

/-- A machine with an empty stack of every kind. -/
def standard : Machine X := ofKinds Kind.all

/-- Gives the machine a stack, replacing an earlier one of that name. -/
def addStack (m : Machine X) (name : String) (t : TypedStack X) : Machine X :=
  { m with memory := m.memory.insert name t }

/-- Whether a stack exists and holds at least `n` elements. -/
def hasElements (m : Machine X) (name : String) (n : Nat) : Bool :=
  (m.memory.get? name).any (·.contents.has n)

/-- The elements of a stack from the bottom up. -/
def elements? (m : Machine X) (name : String) : Option (List Element) :=
  (m.memory.get? name).map (·.contents.elements)

/-- The contents of every stack. -/
def snapshot (m : Machine X) : Snapshot :=
  m.memory.mapEntries fun _ t => t.contents.elements

/-- Replaces the cursor by the result of a move. -/
def moveCursor (m : Machine X) (f : Cursor → Cursor) : Machine X := { m with cursor := f m.cursor }

/-- Pushes a literal on the standard stack of a kind; the kind of that stack decides how the token
is read. -/
def pushLiteral (m : Machine X) (kind : Kind) (token : String) : Machine X :=
  { m with memory := m.memory.modify kind.name (·.pushLiteral token) }

/-- Calls an operation of a stack. Unknown stacks and operations do nothing. -/
def call (m : Machine X) (stack function : String) (source : σ) : Machine X × σ :=
  match (m.memory.get? stack).bind (·.operations.get? function) with
  | some (.builtin op) =>
    let (memory, source) := op.apply stack m.memory source
    ({ m with memory }, source)
  | some (.host op) => Host.act op stack m source
  | none => (m, source)

/-- Takes the top of the standard stack of a carrier. -/
def pop? (α : Type) [Carrier α] (m : Machine X) : Option (α × Machine X) :=
  ((m.memory.typed? α (Memory.home α)).bind Stack.pop?).map fun (a, rest) =>
    (a, { m with memory := m.memory.put (Memory.home α) rest })

/-- Takes a truth value and goes on with a move if it is true. -/
def whenTrue (m : Machine X) (move : Machine X → Machine X) : Machine X :=
  match m.pop? Bool with
  | some (true, m) => move m
  | some (false, m) => m
  | none => m

/-- Takes an integer and jumps to it; the integer is taken even if it is no position. -/
def jump (m : Machine X) : Machine X :=
  match m.pop? Int64 with
  | some (target, m) =>
    if 0 ≤ target.toInt then m.moveCursor (·.jumpTo target.toInt.toNat) else m
  | none => m

/-- Follows a verb. -/
def follow (m : Machine X) : Verb → Machine X
  | .finish => m.moveCursor Cursor.finish
  | .finishIf => m.whenTrue (·.moveCursor Cursor.finish)
  | .jump => m.jump
  | .jumpIf => m.whenTrue jump
  | .skipIf => m.whenTrue (·.moveCursor Cursor.skip)

/-- Follows the verb of a name. Unknown verbs do nothing. -/
def steer (m : Machine X) (verb : String) : Machine X :=
  match Verb.ofName? verb with
  | some verb => m.follow verb
  | none => m

/-- Does what an instruction asks for; the cursor does not move on. -/
def perform (m : Machine X) (i : Instruction) (source : σ) : Machine X × σ :=
  match i.command with
  | .literal kind => (m.pushLiteral kind i.token, source)
  | .call stack function => m.call stack function source
  | .cursor verb => (m.steer verb, source)
  | .noop => (m, source)

end Machine
end StackMachine
