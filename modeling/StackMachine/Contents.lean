import StackMachine.Element
import StackMachine.Stack

/-! Stacks of elements of one kind. -/
namespace StackMachine

/-- The contents of a stack, of one of the kinds. -/
inductive Contents where
  | integer (stack : Stack Int64)
  | float (stack : Stack Float)
  | boolean (stack : Stack Bool)
deriving DecidableEq, Repr

/-- A type of values that contents of one kind hold. -/
class Carrier (α : Type) where
  kind : Kind
  wrap : Stack α → Contents
  unwrap? : Contents → Option (Stack α)
  element : α → Element

instance : Carrier Int64 where
  kind := .integer
  wrap := .integer
  unwrap?
    | .integer s => some s
    | _ => none
  element := .integer

instance : Carrier Float where
  kind := .float
  wrap := .float
  unwrap?
    | .float s => some s
    | _ => none
  element := .float

instance : Carrier Bool where
  kind := .boolean
  wrap := .boolean
  unwrap?
    | .boolean s => some s
    | _ => none
  element := .boolean

namespace Contents

def empty : Kind → Contents
  | .integer => .integer .empty
  | .float => .float .empty
  | .boolean => .boolean .empty

def kind : Contents → Kind
  | .integer _ => .integer
  | .float _ => .float
  | .boolean _ => .boolean

/-- Applies a rearrangement that works for every kind. -/
def map (f : (α : Type) → Stack α → Stack α) : Contents → Contents
  | .integer s => .integer (f Int64 s)
  | .float s => .float (f Float s)
  | .boolean s => .boolean (f Bool s)

/-- The elements from the bottom up. -/
def elements : Contents → List Element
  | .integer s => s.bottomUp.map .integer
  | .float s => s.bottomUp.map .float
  | .boolean s => s.bottomUp.map .boolean

def size : Contents → Nat
  | .integer s => s.size
  | .float s => s.size
  | .boolean s => s.size

/-- Whether there are at least `n` elements. -/
def has (c : Contents) (n : Nat) : Bool := n ≤ c.size

def peek? : Contents → Option Element
  | .integer s => s.peek?.map .integer
  | .float s => s.peek?.map .float
  | .boolean s => s.peek?.map .boolean

/-- The contents with an element of their kind pushed; other elements are refused. -/
def push? : Contents → Element → Option Contents
  | .integer s, .integer v => some (.integer (s.push v))
  | .float s, .float v => some (.float (s.push v))
  | .boolean s, .boolean v => some (.boolean (s.push v))
  | _, _ => none

/-- Pushes an element of the right kind and leaves out any other. -/
def push (c : Contents) (e : Element) : Contents := (c.push? e).getD c

/-- Whether two contents have one kind and equal elements, where floats compare as numbers. -/
def equals (a b : Contents) : Bool :=
  a.kind = b.kind && a.size = b.size &&
    (a.elements.zip b.elements).all fun p => p.1.equals p.2

def drop (c : Contents) : Contents := c.map fun _ s => s.drop

def swap (c : Contents) : Contents := c.map fun _ s => s.swap

def rotate (c : Contents) : Contents := c.map fun _ s => s.rotate

def dup (c : Contents) : Contents := c.map fun _ s => s.dup

def flush (c : Contents) : Contents := c.map fun _ s => s.flush

def yank (c : Contents) (index : Int64) : Contents := c.map fun _ s => s.yank index

def yankDup (c : Contents) (index : Int64) : Contents := c.map fun _ s => s.yankDup index

def shoveTop (c : Contents) (index : Int64) : Contents := c.map fun _ s => s.shoveTop index

/-- The kind and the elements, from the bottom up. -/
def text (c : Contents) : String :=
  c.kind.title ++ "(Stack \x7b elements: [" ++ String.intercalate ", " (c.elements.map Element.text)
    ++ "] \x7d)"

@[simp] theorem kind_push (c : Contents) (e : Element) : (c.push e).kind = c.kind := by
  cases c <;> cases e <;> rfl

theorem kind_of_push? {c d : Contents} {e : Element} (h : c.push? e = some d) :
    d.kind = c.kind := by
  cases c <;> cases e <;> cases h <;> rfl

theorem elements_push {c : Contents} {e : Element} (h : e.kind = c.kind) :
    (c.push e).elements = c.elements ++ [e] := by
  cases c <;> cases e <;> cases h <;> simp [push, push?, elements]

@[simp] theorem length_elements (c : Contents) : c.elements.length = c.size := by
  cases c <;> simp [elements, size, Stack.bottomUp, Stack.size]

theorem peek?_eq_getLast? (c : Contents) : c.peek? = c.elements.getLast? := by
  cases c <;> simp [peek?, elements, Stack.peek?, Stack.bottomUp]

end Contents

/-- A carrier whose stacks are exactly the contents of its kind. -/
class LawfulCarrier (α : Type) [Carrier α] : Prop where
  unwrap?_eq_some_iff {c : Contents} {s : Stack α} :
    Carrier.unwrap? c = some s ↔ c = Carrier.wrap s
  exists_wrap (c : Contents) : c.kind = Carrier.kind α → ∃ s : Stack α, c = Carrier.wrap s
  kind_wrap (s : Stack α) : (Carrier.wrap s).kind = Carrier.kind α
  kind_element (a : α) : (Carrier.element a).kind = Carrier.kind α
  size_wrap (s : Stack α) : (Carrier.wrap s).size = s.size
  elements_wrap (s : Stack α) : (Carrier.wrap s).elements = s.bottomUp.map Carrier.element
  peek?_wrap (s : Stack α) : (Carrier.wrap s).peek? = s.peek?.map Carrier.element
  push_wrap (s : Stack α) (a : α) :
    (Carrier.wrap s).push (Carrier.element a) = Carrier.wrap (s.push a)
  map_wrap (f : (α : Type) → Stack α → Stack α) (s : Stack α) :
    (Carrier.wrap s).map f = Carrier.wrap (f α s)

instance : LawfulCarrier Int64 where
  unwrap?_eq_some_iff {c s} := by cases c <;> simp [Carrier.unwrap?, Carrier.wrap]
  exists_wrap
    | .integer s, _ => ⟨s, rfl⟩
  kind_wrap _ := rfl
  kind_element _ := rfl
  size_wrap _ := rfl
  elements_wrap _ := rfl
  peek?_wrap _ := rfl
  push_wrap _ _ := rfl
  map_wrap _ _ := rfl

instance : LawfulCarrier Float where
  unwrap?_eq_some_iff {c s} := by cases c <;> simp [Carrier.unwrap?, Carrier.wrap]
  exists_wrap
    | .float s, _ => ⟨s, rfl⟩
  kind_wrap _ := rfl
  kind_element _ := rfl
  size_wrap _ := rfl
  elements_wrap _ := rfl
  peek?_wrap _ := rfl
  push_wrap _ _ := rfl
  map_wrap _ _ := rfl

instance : LawfulCarrier Bool where
  unwrap?_eq_some_iff {c s} := by cases c <;> simp [Carrier.unwrap?, Carrier.wrap]
  exists_wrap
    | .boolean s, _ => ⟨s, rfl⟩
  kind_wrap _ := rfl
  kind_element _ := rfl
  size_wrap _ := rfl
  elements_wrap _ := rfl
  peek?_wrap _ := rfl
  push_wrap _ _ := rfl
  map_wrap _ _ := rfl

namespace Contents

/-- All contents are stacks of some carrier. -/
theorem exists_carrier (c : Contents) : ∃ (α : Type) (_ : Carrier α) (_ : LawfulCarrier α)
    (s : Stack α), c = Carrier.wrap s :=
  match c with
  | .integer s => ⟨Int64, inferInstance, inferInstance, s, rfl⟩
  | .float s => ⟨Float, inferInstance, inferInstance, s, rfl⟩
  | .boolean s => ⟨Bool, inferInstance, inferInstance, s, rfl⟩

theorem foldl_push_wrap {α : Type} [Carrier α] [LawfulCarrier α] (s : Stack α) (elements : List α) :
    (elements.map Carrier.element).foldl push (Carrier.wrap s) =
      Carrier.wrap (s.pushAll elements) := by
  induction elements generalizing s with
  | nil => rfl
  | cons a elements ih =>
    simp only [List.map_cons, List.foldl_cons, LawfulCarrier.push_wrap]
    exact ih _

end Contents
end StackMachine
