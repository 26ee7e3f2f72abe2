import StackMachine.Machine
import StackMachine.Proofs.Atomicity
import StackMachine.Random.Script

/-! When the built-in operations fire, and what they do then. A call does all that its operation
stands for, or it leaves every stack alone; the stacks that the operation needs decide. -/
namespace StackMachine
open Memory

section
variable {X : Type}

/-- What the stacks must hold for a common operation. -/
def CommonOp.enabled (op : CommonOp) (target : String) (m : Memory X) : Bool :=
  match op with
  | .pop | .dup => m.has target 1
  | .swap => m.has target 2
  | .rotate => m.has target 3
  | .flush => true
  | .shove | .yank | .yankDup => m.holds (home Int64) .integer 1
  | .stackDepth => m.holds (home Int64) .integer 0

/-- What a common operation does if it has what it needs. Operands and results are listed from the
bottom up. -/
def CommonOp.Fires (op : CommonOp) (target : String) (m m' : Memory X) : Prop :=
  match op with
  | .pop => ∃ a, m.Replaces target [a] target [] m'
  | .swap => ∃ a b, m.Replaces target [a, b] target [b, a] m'
  | .rotate => ∃ a b c, m.Replaces target [a, b, c] target [b, c, a] m'
  | .dup => ∃ a, m.Replaces target [a] target [a, a] m'
  | .flush => ∃ t, m.get? target = some t ∧ m.Replaces target t.contents.elements target [] m'
  | .shove => m.MovedAt (Shoved target) m'
  | .yank => m.MovedAt (Yanked target) m'
  | .yankDup => m.MovedAt (Copied target) m'
  | .stackDepth => m.Replaces (home Int64) [] (home Int64)
      [.integer (Int64.ofNat (m.size target))] m'

theorem CommonOp.apply_atomic (op : CommonOp) {m : Memory X} {target : String} {t : TypedStack X}
    (ht : m.get? target = some t) :
    Atomic (op.enabled target m) (op.Fires target m) m (op.apply target m) := by
  cases op with
  | pop =>
    refine rearrange_atomic ht ?_ (fun _ _ => Stack.drop_eq_self) fun _ ⟨_, h⟩ => h.has_source
    intro α _ _ s hs hn
    obtain ⟨a, below, rfl⟩ := Stack.exists_pushAll_one hn
    exact ⟨_, replaces_put [a] [] hs⟩
  | swap =>
    refine rearrange_atomic ht ?_ (fun _ _ => Stack.swap_eq_self) fun _ ⟨_, _, h⟩ => h.has_source
    intro α _ _ s hs hn
    obtain ⟨a, b, below, rfl⟩ := Stack.exists_pushAll_two hn
    exact ⟨_, _, replaces_put [a, b] [b, a] hs⟩
  | rotate =>
    refine rearrange_atomic ht ?_ (fun _ _ => Stack.rotate_eq_self)
      fun _ ⟨_, _, _, h⟩ => h.has_source
    intro α _ _ s hs hn
    obtain ⟨a, b, c, below, rfl⟩ := Stack.exists_pushAll_three hn
    exact ⟨_, _, _, replaces_put [a, b, c] [b, c, a] hs⟩
  | dup =>
    refine rearrange_atomic ht ?_ (fun _ _ => Stack.dup_eq_self) fun _ ⟨_, h⟩ => h.has_source
    intro α _ _ s hs hn
    obtain ⟨a, below, rfl⟩ := Stack.exists_pushAll_one hn
    exact ⟨_, replaces_put [a] [a, a] hs⟩
  | flush =>
    refine (flush_atomic ht).congr rfl fun m' => ⟨?_, fun h => ⟨t, ht, h⟩⟩
    rintro ⟨u, hu, h⟩
    cases ht.symm.trans hu
    exact h
  | shove => exact rearrangeAt_atomic ht fun _ _ => shoved_rearrange
  | yank => exact rearrangeAt_atomic ht fun _ _ => yanked_rearrange
  | yankDup => exact rearrangeAt_atomic ht fun _ _ => copied_rearrange
  | stackDepth => exact measure_atomic ht

end

variable {X σ : Type} [RandomSource σ]

/-- What the stacks must hold for an integer operation. -/
def IntegerOp.enabled (op : IntegerOp) (target : String) (m : Memory X) : Bool :=
  match op with
  | .add | .sub | .mul | .min | .max => m.holds target .integer 2
  | .div | .rem => m.holds target .integer 2 && (m.top? target).all (!·.isZero)
  | .lt | .gt | .eq => m.holds target .integer 2 && m.holds (home Bool) .boolean 0
  | .fromBoolean => m.holds target .integer 0 && m.holds (home Bool) .boolean 1
  | .fromFloat => m.holds target .integer 0 && m.holds (home Float) .float 1
  | .rand => m.holds target .integer 0

/-- What an integer operation does if it has what it needs. -/
def IntegerOp.Fires (op : IntegerOp) (target : String) (source : σ) (m : Memory X) :
    Memory X → Prop :=
  match op with
  | .add => m.Combines (fun a b : Int64 => a + b) target target
  | .sub => m.Combines (fun a b : Int64 => a - b) target target
  | .mul => m.Combines (fun a b : Int64 => a * b) target target
  | .div => m.Divides (fun a b : Int64 => a / b) target
  | .rem => m.Divides (fun a b : Int64 => a % b) target
  | .min => m.Combines (fun a b : Int64 => Min.min a b) target target
  | .max => m.Combines (fun a b : Int64 => Max.max a b) target target
  | .lt => m.Combines (fun a b : Int64 => decide (a < b)) target (home Bool)
  | .gt => m.Combines (fun a b : Int64 => decide (b < a)) target (home Bool)
  | .eq => m.Combines (fun a b : Int64 => decide (a = b)) target (home Bool)
  | .fromBoolean => m.Converts (fun b : Bool => if b then (1 : Int64) else 0) (home Bool) target
  | .fromFloat => m.Converts Arithmetic.integerOfFloat (home Float) target
  | .rand => m.Replaces target [] target [.integer (RandomSource.randomInteger source).1]

theorem IntegerOp.apply_atomic (op : IntegerOp) (target : String) (m : Memory X) (source : σ) :
    Atomic (op.enabled target m) (op.Fires target source m) m (op.apply target m source).1 := by
  have hzero (b : Int64) : decide (b ≠ 0) = !(Carrier.element b).isZero := decide_not
  cases op with
  | add => exact binary_atomic (α := Int64) _ target m
  | sub => exact binary_atomic (α := Int64) _ target m
  | mul => exact binary_atomic (α := Int64) _ target m
  | div => exact division_atomic hzero _ target m
  | rem => exact division_atomic hzero _ target m
  | min => exact binary_atomic (α := Int64) _ target m
  | max => exact binary_atomic (α := Int64) _ target m
  | lt => exact compare_atomic (α := Int64) (by decide) _ target m
  | gt => exact compare_atomic (α := Int64) (by decide) _ target m
  | eq => exact compare_atomic (α := Int64) (by decide) _ target m
  | fromBoolean => exact convert_atomic (α := Int64) (β := Bool) (by decide) _ target m
  | fromFloat => exact convert_atomic (α := Int64) (β := Float) (by decide) _ target m
  | rand => exact deliver_atomic (α := Int64) _ target m

/-- What the stacks must hold for a float operation. -/
def FloatOp.enabled (op : FloatOp) (target : String) (m : Memory X) : Bool :=
  match op with
  | .add | .sub | .mul | .min | .max => m.holds target .float 2
  | .div | .rem => m.holds target .float 2 && (m.top? target).all (!·.isZero)
  | .lt | .gt | .eq => m.holds target .float 2 && m.holds (home Bool) .boolean 0
  | .sin | .cos | .tan => m.holds target .float 1
  | .fromBoolean => m.holds target .float 0 && m.holds (home Bool) .boolean 1
  | .fromInteger => m.holds target .float 0 && m.holds (home Int64) .integer 1
  | .rand => m.holds target .float 0

/-- What a float operation does if it has what it needs. -/
def FloatOp.Fires (op : FloatOp) (target : String) (source : σ) (m : Memory X) :
    Memory X → Prop :=
  match op with
  | .add => m.Combines (fun a b : Float => a + b) target target
  | .sub => m.Combines (fun a b : Float => a - b) target target
  | .mul => m.Combines (fun a b : Float => a * b) target target
  | .div => m.Divides (fun a b : Float => a / b) target
  | .rem => m.Divides Arithmetic.floatRemainder target
  | .min => m.Combines Arithmetic.floatMin target target
  | .max => m.Combines Arithmetic.floatMax target target
  | .lt => m.Combines (fun a b : Float => decide (a < b)) target (home Bool)
  | .gt => m.Combines (fun a b : Float => decide (b < a)) target (home Bool)
  | .eq => m.Combines (fun a b : Float => a == b) target (home Bool)
  | .sin => m.Converts Float.sin target target
  | .cos => m.Converts Float.cos target target
  | .tan => m.Converts Float.tan target target
  | .fromBoolean => m.Converts (fun b : Bool => if b then (1.0 : Float) else 0.0) (home Bool) target
  | .fromInteger => m.Converts Arithmetic.floatOfInteger (home Int64) target
  | .rand => m.Replaces target [] target [.float (RandomSource.randomFloat source).1]

theorem FloatOp.apply_atomic (op : FloatOp) (target : String) (m : Memory X) (source : σ) :
    Atomic (op.enabled target m) (op.Fires target source m) m (op.apply target m source).1 := by
  have hzero (b : Float) : (b != 0.0) = !(Carrier.element b).isZero := rfl
  cases op with
  | add => exact binary_atomic (α := Float) _ target m
  | sub => exact binary_atomic (α := Float) _ target m
  | mul => exact binary_atomic (α := Float) _ target m
  | div => exact division_atomic hzero _ target m
  | rem => exact division_atomic hzero _ target m
  | min => exact binary_atomic (α := Float) _ target m
  | max => exact binary_atomic (α := Float) _ target m
  | lt => exact compare_atomic (α := Float) (by decide) _ target m
  | gt => exact compare_atomic (α := Float) (by decide) _ target m
  | eq => exact compare_atomic (α := Float) (by decide) _ target m
  | sin => exact unary_atomic (α := Float) _ target m
  | cos => exact unary_atomic (α := Float) _ target m
  | tan => exact unary_atomic (α := Float) _ target m
  | fromBoolean => exact convert_atomic (α := Float) (β := Bool) (by decide) _ target m
  | fromInteger => exact convert_atomic (α := Float) (β := Int64) (by decide) _ target m
  | rand => exact deliver_atomic (α := Float) _ target m

section
variable {X : Type}

/-- What the stacks must hold for an operation on truth values. -/
def BooleanOp.enabled (op : BooleanOp) (target : String) (m : Memory X) : Bool :=
  match op with
  | .eq | .and | .or | .xor => m.holds target .boolean 2
  | .not => m.holds target .boolean 1
  | .fromInteger => m.holds target .boolean 0 && m.holds (home Int64) .integer 1
  | .fromFloat => m.holds target .boolean 0 && m.holds (home Float) .float 1

/-- What an operation on truth values does if it has what it needs. -/
def BooleanOp.Fires (op : BooleanOp) (target : String) (m : Memory X) : Memory X → Prop :=
  match op with
  | .eq => m.Combines (fun a b : Bool => a == b) target target
  | .and => m.Combines (fun a b : Bool => a && b) target target
  | .or => m.Combines (fun a b : Bool => a || b) target target
  | .xor => m.Combines (fun a b : Bool => a != b) target target
  | .not => m.Converts (fun a : Bool => !a) target target
  | .fromInteger => m.Converts (fun n : Int64 => decide (n ≠ 0)) (home Int64) target
  | .fromFloat => m.Converts (fun x : Float => x != 0.0) (home Float) target

theorem BooleanOp.apply_atomic (op : BooleanOp) (target : String) (m : Memory X) :
    Atomic (op.enabled target m) (op.Fires target m) m (op.apply target m) := by
  cases op with
  | eq => exact binary_atomic (α := Bool) _ target m
  | and => exact binary_atomic (α := Bool) _ target m
  | or => exact binary_atomic (α := Bool) _ target m
  | xor => exact binary_atomic (α := Bool) _ target m
  | not => exact unary_atomic (α := Bool) _ target m
  | fromInteger => exact convert_atomic (α := Bool) (β := Int64) (by decide) _ target m
  | fromFloat => exact convert_atomic (α := Bool) (β := Float) (by decide) _ target m

end

/-- What the stacks must hold for an operation on a target. -/
def Builtin.enabled (op : Builtin) (target : String) (m : Memory X) : Bool :=
  match op with
  | .common op => op.enabled target m
  | .integer op => op.enabled target m
  | .float op => op.enabled target m
  | .boolean op => op.enabled target m

/-- What an operation on a target does if it has what it needs. -/
def Builtin.Fires (op : Builtin) (target : String) (source : σ) (m : Memory X) :
    Memory X → Prop :=
  match op with
  | .common op => op.Fires target m
  | .integer op => op.Fires target source m
  | .float op => op.Fires target source m
  | .boolean op => op.Fires target m

theorem Builtin.apply_atomic (op : Builtin) {m : Memory X} {target : String} {t : TypedStack X}
    (ht : m.get? target = some t) (source : σ) :
    Atomic (op.enabled target m) (op.Fires target source m) m (op.apply target m source).1 := by
  cases op with
  | common op => exact op.apply_atomic ht
  | integer op => exact op.apply_atomic target m source
  | float op => exact op.apply_atomic target m source
  | boolean op => exact op.apply_atomic target m

/-- A call of a built-in operation fires exactly if every stack that the operation needs is there
with what it needs; else all stacks stay as they are. The cursor and the count never change. -/
theorem Machine.call_fires_iff [Host X] (m : Machine X) {target function : String}
    {t : TypedStack X} {op : Builtin} (source : σ) (ht : m.memory.get? target = some t)
    (hop : t.operations.get? function = some (.builtin op)) :
    let m' := (m.call target function source).1
    (op.Fires target source m.memory m'.memory ↔ op.enabled target m.memory = true) ∧
    (op.enabled target m.memory = false → m'.memory = m.memory) ∧
    m'.cursor = m.cursor ∧ m'.executed = m.executed := by
  intro m'
  have hcall : m' = { m with memory := (op.apply target m.memory source).1 } := by
    change (m.call target function source).1 = _
    unfold Machine.call
    rw [ht, Option.bind_some, hop]
  have h := op.apply_atomic ht source
  rw [hcall]
  exact ⟨h.fires_iff, h.unchanged, rfl, rfl⟩

/-- An index is taken off the very stack that it moves. -/
theorem Machine.call_fires_iff_own_index :
    let t : TypedStack Empty :=
      (TypedStack.standard .integer).pushAll [.integer 7, .integer 8, .integer 1]
    let m : Machine Empty := (Machine.standard).addStack "integer" t
    let m' := (m.call "integer" "yank" (⟨[], []⟩ : Script)).1
    m.memory.get? "integer" = some t ∧
    t.operations.get? "yank" = some (.builtin (.common .yank)) ∧
    CommonOp.Fires .yank "integer" m.memory m'.memory ∧
    m'.elements? "integer" = some [.integer 8, .integer 7] := by
  intro t m m'
  have ht : m.memory.get? "integer" = some t :=
    (NameMap.get?_insert _ _ _ _).trans (if_pos rfl)
  have hop : t.operations.get? "yank" = some (.builtin (.common .yank)) := by decide
  have h := Machine.call_fires_iff m (⟨[], []⟩ : Script) ht hop
  exact ⟨ht, hop, h.1.mpr (by decide), by decide⟩

end StackMachine
