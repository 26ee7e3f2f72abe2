/-! Stacks with positional access counted from the top. -/
namespace StackMachine

/-- A stack as the list of its elements, the top first. -/
structure Stack (α : Type) where
  topDown : List α
deriving DecidableEq, Repr

namespace Stack
variable {α : Type}

/-- The stack with no elements. -/
def empty : Stack α := ⟨[]⟩

/-- The stack whose elements, from the bottom up, are the given ones. -/
def ofBottomUp (elements : List α) : Stack α := ⟨elements.reverse⟩

/-- The elements from the bottom up. -/
def bottomUp (s : Stack α) : List α := s.topDown.reverse

@[simp] theorem bottomUp_ofBottomUp (elements : List α) :
    (ofBottomUp elements).bottomUp = elements := List.reverse_reverse elements

@[simp] theorem ofBottomUp_bottomUp (s : Stack α) : ofBottomUp s.bottomUp = s := by
  simp [ofBottomUp, bottomUp]

def size (s : Stack α) : Nat := s.topDown.length

def isEmpty (s : Stack α) : Bool := s.topDown.isEmpty

/-- Whether the stack holds at least `n` elements. -/
def has (s : Stack α) (n : Nat) : Bool := n ≤ s.size

/-- Whether the stack holds fewer than `n` elements. -/
def lacks (s : Stack α) (n : Nat) : Bool := !s.has n

def peek? (s : Stack α) : Option α := s.topDown.head?

def push (s : Stack α) (a : α) : Stack α := ⟨a :: s.topDown⟩

@[simp] theorem bottomUp_push (s : Stack α) (a : α) : (s.push a).bottomUp = s.bottomUp ++ [a] := by
  simp [push, bottomUp]

/-- Pushes elements, the first of them first. -/
def pushAll (s : Stack α) (elements : List α) : Stack α := elements.foldl push s

theorem topDown_pushAll (s : Stack α) (elements : List α) :
    (s.pushAll elements).topDown = elements.reverse ++ s.topDown := by
  unfold pushAll
  induction elements generalizing s with
  | nil => rfl
  | cons a elements ih => simp [ih, push]

/-- The top and the stack below it. -/
def pop? (s : Stack α) : Option (α × Stack α) :=
  match s.topDown with
  | [] => none
  | a :: rest => some (a, ⟨rest⟩)

/-- The second element, the top, and the stack below both. -/
def popPair? (s : Stack α) : Option (α × α × Stack α) :=
  match s.topDown with
  | top :: second :: rest => some (second, top, ⟨rest⟩)
  | _ => none

/-- Removes the top, if there is one. -/
def drop (s : Stack α) : Stack α := ⟨s.topDown.tail⟩

/-- Exchanges the two topmost elements. -/
def swap (s : Stack α) : Stack α :=
  match s.topDown with
  | a :: b :: rest => ⟨b :: a :: rest⟩
  | _ => s

/-- Brings the third element to the top; the two above it sink. -/
def rotate (s : Stack α) : Stack α :=
  match s.topDown with
  | a :: b :: c :: rest => ⟨c :: a :: b :: rest⟩
  | _ => s

/-- Pushes a copy of the top. -/
def dup (s : Stack α) : Stack α :=
  match s.topDown with
  | a :: rest => ⟨a :: a :: rest⟩
  | [] => s

/-- Removes every element. -/
def flush (_ : Stack α) : Stack α := empty

/-- The depth that an index names: zero is the top, and the bottom is the last one. The test is on
exact integers; for every stack whose size is a signed word, `Stack.inWords` has the operations
below in the arithmetic of words. -/
def depth? (s : Stack α) (index : Int64) : Option Nat :=
  let n := index.toInt
  if 0 ≤ n ∧ n < s.size then some n.toNat else none

/-- Moves the element at a depth of at least one to the top. -/
def yank (s : Stack α) (index : Int64) : Stack α :=
  match s.depth? index with
  | some (n + 1) =>
    match s.topDown[n + 1]? with
    | some a => ⟨a :: s.topDown.eraseIdx (n + 1)⟩
    | none => s
  | _ => s

/-- Pushes a copy of the element at a depth. -/
def yankDup (s : Stack α) (index : Int64) : Stack α :=
  match (s.depth? index).bind (s.topDown[·]?) with
  | some a => s.push a
  | none => s

/-- Whether an index names an element below which another can be shoved. -/
def canShove (s : Stack α) (index : Int64) : Bool := (s.depth? index).isSome

/-- Inserts an element right below the one at a depth. -/
def shove (s : Stack α) (a : α) (index : Int64) : Stack α :=
  match s.depth? index with
  | some n => ⟨s.topDown.insertIdx (n + 1) a⟩
  | none => s

/-- Takes the top and shoves it into what remains; out of range it stays on top. -/
def shoveTop (s : Stack α) (index : Int64) : Stack α :=
  match s.pop? with
  | some (a, rest) => if rest.canShove index then rest.shove a index else s
  | none => s

end Stack
end StackMachine
