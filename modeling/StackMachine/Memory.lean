import StackMachine.TypedStack

/-! Named stacks and the elementary ways to change them. -/
namespace StackMachine

/-- The stacks of a machine by name. -/
abbrev Memory (X : Type) := NameMap (TypedStack X)

namespace Memory
variable {X : Type}

/-- The values of a stack that exists and has the kind of the carrier. -/
def typed? (α : Type) [Carrier α] (m : Memory X) (name : String) : Option (Stack α) :=
  (m.get? name).bind fun t => Carrier.unwrap? t.contents

/-- Replaces the values of an existing stack. -/
def put {α : Type} [Carrier α] (m : Memory X) (name : String) (s : Stack α) : Memory X :=
  m.modify name fun t => { t with contents := Carrier.wrap s }

/-- The name of the standard stack of a carrier. -/
def home (α : Type) [Carrier α] : String := (Carrier.kind α).name

/-- Rearranges the target. -/
def rearrange (f : Contents → Contents) (target : String) (m : Memory X) : Memory X :=
  m.modify target (·.mapContents f)

/-- Takes an index from the standard integer stack and rearranges the target with it. The index is
taken even if it is out of range, but not if there is no target. -/
def rearrangeAt (f : Contents → Int64 → Contents) (target : String) (m : Memory X) : Memory X :=
  if m.contains target then
    match (m.typed? Int64 (home Int64)).bind Stack.pop? with
    | some (index, rest) => (m.put (home Int64) rest).rearrange (f · index) target
    | none => m
  else m

/-- Pushes the size of the target on the standard integer stack. -/
def measure (target : String) (m : Memory X) : Memory X :=
  match m.get? target, m.typed? Int64 (home Int64) with
  | some t, some s => m.put (home Int64) (s.push (Int64.ofNat t.contents.size))
  | _, _ => m

section
variable {α β : Type} [Carrier α] [Carrier β]

/-- Replaces the top of the target. -/
def unary (f : α → α) (target : String) (m : Memory X) : Memory X :=
  match (m.typed? α target).bind Stack.pop? with
  | some (a, rest) => m.put target (rest.push (f a))
  | none => m

/-- Replaces the second element `a` and the top `b` of the target by `f a b`, if `b` is admitted. -/
def binaryIf (admits : α → Bool) (f : α → α → α) (target : String) (m : Memory X) : Memory X :=
  match (m.typed? α target).bind Stack.popPair? with
  | some (a, b, rest) => if admits b then m.put target (rest.push (f a b)) else m
  | none => m

/-- Replaces the second element `a` and the top `b` of the target by `f a b`. -/
def binary (f : α → α → α) (target : String) (m : Memory X) : Memory X :=
  m.binaryIf (fun _ => true) f target

/-- Takes the two topmost elements of the target and pushes the outcome of a test on the standard
boolean stack. -/
def compare (f : α → α → Bool) (target : String) (m : Memory X) : Memory X :=
  match m.typed? Bool (home Bool), (m.typed? α target).bind Stack.popPair? with
  | some results, some (a, b, rest) => (m.put target rest).put (home Bool) (results.push (f a b))
  | _, _ => m

/-- Moves the top of the standard stack of `β` to the target. -/
def convert (f : β → α) (target : String) (m : Memory X) : Memory X :=
  match m.typed? α target, (m.typed? β (home β)).bind Stack.pop? with
  | some s, some (b, rest) => (m.put (home β) rest).put target (s.push (f b))
  | _, _ => m

/-- Pushes a value on the target, if the target takes its kind. -/
def deliver (a : α) (target : String) (m : Memory X) : Memory X :=
  match m.typed? α target with
  | some s => m.put target (s.push a)
  | none => m

end
end Memory
end StackMachine
