import StackMachine.Element
import StackMachine.NameMap

/-! The operations that stacks offer, and the tables that name them. -/
namespace StackMachine

/-- Operations that every stack offers. -/
inductive CommonOp where
  | pop
  | swap
  | rotate
  | dup
  | flush
  | shove
  | yank
  | yankDup
  | stackDepth
deriving DecidableEq, Repr

/-- Operations on integers. -/
inductive IntegerOp where
  | add
  | sub
  | mul
  | div
  | rem
  | min
  | max
  | lt
  | gt
  | eq
  | fromBoolean
  | fromFloat
  | rand
deriving DecidableEq, Repr

/-- Operations on floats. -/
inductive FloatOp where
  | add
  | sub
  | mul
  | div
  | rem
  | min
  | max
  | lt
  | gt
  | eq
  | sin
  | cos
  | tan
  | fromBoolean
  | fromInteger
  | rand
deriving DecidableEq, Repr

/-- Operations on truth values. -/
inductive BooleanOp where
  | eq
  | and
  | or
  | xor
  | not
  | fromInteger
  | fromFloat
deriving DecidableEq, Repr

/-- The operations that the machine itself defines. -/
inductive Builtin where
  | common (op : CommonOp)
  | integer (op : IntegerOp)
  | float (op : FloatOp)
  | boolean (op : BooleanOp)
deriving DecidableEq, Repr

/-- An operation of a stack: a built-in one, or one that the embedding program supplies. -/
inductive Operation (X : Type) where
  | builtin (op : Builtin)
  | host (op : X)
deriving DecidableEq, Repr

/-- Operations by name. -/
abbrev OperationTable (X : Type) := NameMap (Operation X)

namespace CommonOp

def name : CommonOp → String
  | .pop => "pop"
  | .swap => "swap"
  | .rotate => "rotate"
  | .dup => "dup"
  | .flush => "flush"
  | .shove => "shove"
  | .yank => "yank"
  | .yankDup => "yankdup"
  | .stackDepth => "stackdepth"

def all : List CommonOp :=
  [.pop, .swap, .rotate, .dup, .flush, .shove, .yank, .yankDup, .stackDepth]

end CommonOp

namespace IntegerOp

def name : IntegerOp → String
  | .add => "+"
  | .sub => "-"
  | .mul => "*"
  | .div => "/"
  | .rem => "%"
  | .min => "min"
  | .max => "max"
  | .lt => "<"
  | .gt => ">"
  | .eq => "="
  | .fromBoolean => "fromboolean"
  | .fromFloat => "fromfloat"
  | .rand => "rand"

def all : List IntegerOp :=
  [.add, .sub, .mul, .div, .rem, .min, .max, .lt, .gt, .eq, .fromBoolean, .fromFloat, .rand]

end IntegerOp

namespace FloatOp

def name : FloatOp → String
  | .add => "+"
  | .sub => "-"
  | .mul => "*"
  | .div => "/"
  | .rem => "%"
  | .min => "min"
  | .max => "max"
  | .lt => "<"
  | .gt => ">"
  | .eq => "="
  | .sin => "sin"
  | .cos => "cos"
  | .tan => "tan"
  | .fromBoolean => "fromboolean"
  | .fromInteger => "frominteger"
  | .rand => "rand"

def all : List FloatOp :=
  [.add, .sub, .mul, .div, .rem, .min, .max, .lt, .gt, .eq, .sin, .cos, .tan, .fromBoolean,
   .fromInteger, .rand]

end FloatOp

namespace BooleanOp

def name : BooleanOp → String
  | .eq => "="
  | .and => "and"
  | .or => "or"
  | .xor => "xor"
  | .not => "not"
  | .fromInteger => "frominteger"
  | .fromFloat => "fromfloat"

def all : List BooleanOp := [.eq, .and, .or, .xor, .not, .fromInteger, .fromFloat]

end BooleanOp

namespace Builtin

def name : Builtin → String
  | .common op => op.name
  | .integer op => op.name
  | .float op => op.name
  | .boolean op => op.name

/-- The operations that only stacks of one kind offer. -/
def ofKind : Kind → List Builtin
  | .integer => IntegerOp.all.map .integer
  | .float => FloatOp.all.map .float
  | .boolean => BooleanOp.all.map .boolean

/-- The named entry of an operation in a table. -/
def entry {X : Type} (op : Builtin) : String × Operation X := (op.name, .builtin op)

end Builtin

namespace OperationTable
variable {X : Type}

/-- The operations that every stack offers. -/
def common : OperationTable X :=
  .ofList (CommonOp.all.map fun op => (Builtin.common op).entry)

/-- The operations of a stack of a kind: the common ones and those of its own. -/
def standard (kind : Kind) : OperationTable X :=
  common.insertAll ((Builtin.ofKind kind).map Builtin.entry)

end OperationTable
end StackMachine
