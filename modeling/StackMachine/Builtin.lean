import StackMachine.Memory
import StackMachine.Random

/-! What the built-in operations do. -/
namespace StackMachine
variable {X σ : Type} [RandomSource σ]

/-- What a common operation does. -/
def CommonOp.apply (op : CommonOp) (target : String) (m : Memory X) : Memory X :=
  match op with
  | .pop => m.rearrange Contents.drop target
  | .swap => m.rearrange Contents.swap target
  | .rotate => m.rearrange Contents.rotate target
  | .dup => m.rearrange Contents.dup target
  | .flush => m.rearrange Contents.flush target
  | .shove => m.rearrangeAt Contents.shoveTop target
  | .yank => m.rearrangeAt Contents.yank target
  | .yankDup => m.rearrangeAt Contents.yankDup target
  | .stackDepth => m.measure target

/-- What an integer operation does. Arithmetic wraps, division truncates, and a zero divisor keeps
both operands in place. -/
def IntegerOp.apply (op : IntegerOp) (target : String) (m : Memory X) (source : σ) :
    Memory X × σ :=
  match op with
  | .add => (m.binary (fun a b : Int64 => a + b) target, source)
  | .sub => (m.binary (fun a b : Int64 => a - b) target, source)
  | .mul => (m.binary (fun a b : Int64 => a * b) target, source)
  | .div => (m.binaryIf (· ≠ 0) (fun a b : Int64 => a / b) target, source)
  | .rem => (m.binaryIf (· ≠ 0) (fun a b : Int64 => a % b) target, source)
  | .min => (m.binary (fun a b : Int64 => if a ≤ b then a else b) target, source)
  | .max => (m.binary (fun a b : Int64 => if a ≤ b then b else a) target, source)
  | .lt => (m.compare (fun a b : Int64 => a < b) target, source)
  | .gt => (m.compare (fun a b : Int64 => b < a) target, source)
  | .eq => (m.compare (fun a b : Int64 => a = b) target, source)
  | .fromBoolean => (m.convert (fun b : Bool => if b then (1 : Int64) else 0) target, source)
  | .fromFloat => (m.convert Arithmetic.integerOfFloat target, source)
  | .rand =>
    let (n, source) := RandomSource.randomInteger source
    (m.deliver n target, source)

/-- What a float operation does. A divisor equal to zero keeps both operands in place. -/
def FloatOp.apply (op : FloatOp) (target : String) (m : Memory X) (source : σ) : Memory X × σ :=
  match op with
  | .add => (m.binary (fun a b : Float => a + b) target, source)
  | .sub => (m.binary (fun a b : Float => a - b) target, source)
  | .mul => (m.binary (fun a b : Float => a * b) target, source)
  | .div => (m.binaryIf (· != 0.0) (fun a b : Float => a / b) target, source)
  | .rem => (m.binaryIf (· != 0.0) Arithmetic.floatRemainder target, source)
  | .min => (m.binary Arithmetic.floatMin target, source)
  | .max => (m.binary Arithmetic.floatMax target, source)
  | .lt => (m.compare (fun a b : Float => a < b) target, source)
  | .gt => (m.compare (fun a b : Float => b < a) target, source)
  | .eq => (m.compare (fun a b : Float => a == b) target, source)
  | .sin => (m.unary Float.sin target, source)
  | .cos => (m.unary Float.cos target, source)
  | .tan => (m.unary Float.tan target, source)
  | .fromBoolean => (m.convert (fun b : Bool => if b then (1.0 : Float) else 0.0) target, source)
  | .fromInteger => (m.convert Arithmetic.floatOfInteger target, source)
  | .rand =>
    let (x, source) := RandomSource.randomFloat source
    (m.deliver x target, source)

/-- What an operation on truth values does. -/
def BooleanOp.apply (op : BooleanOp) (target : String) (m : Memory X) : Memory X :=
  match op with
  | .eq => m.binary (fun a b : Bool => a == b) target
  | .and => m.binary (fun a b : Bool => a && b) target
  | .or => m.binary (fun a b : Bool => a || b) target
  | .xor => m.binary (fun a b : Bool => a != b) target
  | .not => m.unary (fun a : Bool => !a) target
  | .fromInteger => m.convert (fun n : Int64 => (n ≠ 0 : Bool)) target
  | .fromFloat => m.convert (fun x : Float => x != 0.0) target

/-- What a built-in operation does when it is called on a target. Where a stack is missing, of the
wrong kind or too short, nothing changes; a random value is drawn even if no stack takes it. -/
def Builtin.apply (op : Builtin) (target : String) (m : Memory X) (source : σ) : Memory X × σ :=
  match op with
  | .common op => (op.apply target m, source)
  | .integer op => op.apply target m source
  | .float op => op.apply target m source
  | .boolean op => (op.apply target m, source)

end StackMachine
