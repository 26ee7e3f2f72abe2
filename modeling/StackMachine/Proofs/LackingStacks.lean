import StackMachine.Proofs.Firing
import StackMachine.Proofs.Randomness
import StackMachine.Random.Script

/-! Calls of operations that lack a stack. Where a stack that an operation needs is missing or of
another kind, the call leaves the machine alone. It leaves the random source alone too, unless the
operation is a random draw: a value is drawn before the target is looked at. -/
namespace StackMachine
open Memory

/-- The stacks that a common operation needs beside its target, which may have any kind. -/
def CommonOp.needs : CommonOp → List (String × Kind)
  | .shove | .yank | .yankDup | .stackDepth => [(home Int64, .integer)]
  | .pop | .swap | .rotate | .dup | .flush => []

/-- The stacks that an integer operation needs, with their kinds. -/
def IntegerOp.needs (op : IntegerOp) (target : String) : List (String × Kind) :=
  (target, .integer) :: match op with
    | .lt | .gt | .eq | .fromBoolean => [(home Bool, .boolean)]
    | .fromFloat => [(home Float, .float)]
    | .add | .sub | .mul | .div | .rem | .min | .max | .rand => []

/-- The stacks that a float operation needs, with their kinds. -/
def FloatOp.needs (op : FloatOp) (target : String) : List (String × Kind) :=
  (target, .float) :: match op with
    | .lt | .gt | .eq | .fromBoolean => [(home Bool, .boolean)]
    | .fromInteger => [(home Int64, .integer)]
    | .add | .sub | .mul | .div | .rem | .min | .max | .sin | .cos | .tan | .rand => []

/-- The stacks that an operation on truth values needs, with their kinds. -/
def BooleanOp.needs (op : BooleanOp) (target : String) : List (String × Kind) :=
  (target, .boolean) :: match op with
    | .fromInteger => [(home Int64, .integer)]
    | .fromFloat => [(home Float, .float)]
    | .eq | .and | .or | .xor | .not => []

def Builtin.needs (op : Builtin) (target : String) : List (String × Kind) :=
  match op with
  | .common op => op.needs
  | .integer op => op.needs target
  | .float op => op.needs target
  | .boolean op => op.needs target

namespace Memory
variable {X : Type}

/-- Some of the needed stacks are missing or of another kind. -/
def Lacks (m : Memory X) (needed : List (String × Kind)) : Prop :=
  ∃ s ∈ needed, m.holds s.1 s.2 0 = false

theorem holds_zero {m : Memory X} {name : String} {kind : Kind} {n : Nat}
    (h : m.holds name kind n = true) : m.holds name kind 0 = true := by
  obtain ⟨t, ht, hk, -⟩ := holds_eq_true_iff.mp h
  exact holds_eq_true_iff.mpr ⟨t, ht, hk, Nat.zero_le _⟩

theorem not_lacks_one {m : Memory X} {name : String} {kind : Kind} {n : Nat}
    (h : m.holds name kind n = true) : ¬m.Lacks [(name, kind)] := by
  simp [Lacks, holds_zero h]

theorem not_lacks_two {m : Memory X} {name name' : String} {kind kind' : Kind} {n n' : Nat}
    (h : (m.holds name kind n && m.holds name' kind' n') = true) :
    ¬m.Lacks [(name, kind), (name', kind')] := by
  obtain ⟨hfirst, hsecond⟩ := Bool.and_eq_true_iff.mp h
  simp [Lacks, holds_zero hfirst, holds_zero hsecond]

end Memory

section
variable {X : Type} {target : String} {m : Memory X}

theorem CommonOp.not_lacks {op : CommonOp} (h : op.enabled target m = true) :
    ¬m.Lacks op.needs := by
  cases op
  case shove | yank | yankDup | stackDepth => exact not_lacks_one h
  case pop | swap | rotate | dup | flush => simp [needs, Lacks]

theorem IntegerOp.not_lacks {op : IntegerOp} (h : op.enabled target m = true) :
    ¬m.Lacks (op.needs target) := by
  cases op
  case add | sub | mul | min | max | rand => exact not_lacks_one h
  case div | rem => exact not_lacks_one (Bool.and_eq_true_iff.mp h).1
  case lt | gt | eq | fromBoolean | fromFloat => exact not_lacks_two h

theorem FloatOp.not_lacks {op : FloatOp} (h : op.enabled target m = true) :
    ¬m.Lacks (op.needs target) := by
  cases op
  case add | sub | mul | min | max | sin | cos | tan | rand => exact not_lacks_one h
  case div | rem => exact not_lacks_one (Bool.and_eq_true_iff.mp h).1
  case lt | gt | eq | fromBoolean | fromInteger => exact not_lacks_two h

theorem BooleanOp.not_lacks {op : BooleanOp} (h : op.enabled target m = true) :
    ¬m.Lacks (op.needs target) := by
  cases op
  case eq | and | or | xor | not => exact not_lacks_one h
  case fromInteger | fromFloat => exact not_lacks_two h

/-- An operation that lacks a stack is not enabled. -/
theorem Builtin.enabled_of_lacks {op : Builtin} (h : m.Lacks (op.needs target)) :
    op.enabled target m = false := by
  rw [← Bool.not_eq_true]
  intro henabled
  cases op with
  | common op => exact CommonOp.not_lacks henabled h
  | integer op => exact IntegerOp.not_lacks henabled h
  | float op => exact FloatOp.not_lacks henabled h
  | boolean op => exact BooleanOp.not_lacks henabled h

end

namespace Builtin

theorem draws_eq_nil_iff {op : Builtin} :
    op.draws = [] ↔ op ≠ .integer .rand ∧ op ≠ .float .rand := by
  unfold draws
  split
  · simp
  · simp
  · rename_i hinteger hfloat
    exact iff_of_true rfl ⟨hinteger, hfloat⟩

/-- A script with one draw of each sort left tells every draw from none. -/
theorem draws_eq_nil_of_script {op : Builtin}
    (h : (Draw.serveAll op.draws (⟨[0], [0.0]⟩ : Script)).2 = ⟨[0], [0.0]⟩) : op.draws = [] := by
  unfold draws at h ⊢
  split at h
  · exact absurd h (by decide)
  · exact absurd h (by decide)
  · rfl

end Builtin

namespace Machine
variable {X : Type} [Host X]

theorem call_eq_of_lacks (m : Machine X) {target function : String} {op : Builtin}
    (hop : m.operation? target function = some (.builtin op))
    (hlacks : m.memory.Lacks (op.needs target)) {σ : Type} [RandomSource σ] (source : σ) :
    m.call target function source = (m, (Draw.serveAll op.draws source).2) := by
  obtain ⟨t, ht, -⟩ := Option.bind_eq_some_iff.mp hop
  obtain ⟨next, hnext⟩ := op.exists_apply_eq target m.memory
  have hmemory := (op.apply_atomic ht source).unchanged (Builtin.enabled_of_lacks hlacks)
  have hsource : (op.apply target m.memory source).2 = (Draw.serveAll op.draws source).2 := by
    rw [hnext]
  unfold operation? at hop
  unfold call
  rw [hop]
  show ({ m with memory := (op.apply target m.memory source).1 },
    (op.apply target m.memory source).2) = _
  rw [hmemory, hsource]

/-- A call that lacks a stack leaves the machine as it is. It makes the draws of its operation all
the same; so it leaves every source as it is exactly if the operation is no random draw. -/
theorem call_of_lacks (m : Machine X) {target function : String} {op : Builtin}
    (hop : m.operation? target function = some (.builtin op))
    (hlacks : m.memory.Lacks (op.needs target)) :
    (∀ {σ : Type} [RandomSource σ] (source : σ),
      m.call target function source = (m, (Draw.serveAll op.draws source).2)) ∧
    ((∀ {σ : Type} [RandomSource σ] (source : σ), (m.call target function source).2 = source) ↔
      op ≠ .integer .rand ∧ op ≠ .float .rand) := by
  refine ⟨m.call_eq_of_lacks hop hlacks, ?_⟩
  rw [← Builtin.draws_eq_nil_iff]
  constructor
  · intro hall
    have hscript := hall (⟨[0], [0.0]⟩ : Script)
    rw [m.call_eq_of_lacks hop hlacks] at hscript
    exact Builtin.draws_eq_nil_of_script hscript
  · intro hdraws σ _ source
    rw [m.call_eq_of_lacks hop hlacks, hdraws]
    rfl

/-- A comparison without a stack for its outcome. -/
theorem call_of_lacks_outcome :
    let m : Machine Empty := (ofKinds [.integer]).addStack "integer"
      ((TypedStack.standard .integer).pushAll [.integer 1, .integer 2])
    let source : Script := ⟨[3, 7], []⟩
    m.memory.Lacks (Builtin.needs (.integer .lt) "integer") ∧
    m.call "integer" "<" source = (m, source) := by
  intro m source
  have hop : m.operation? "integer" "<" = some (.builtin (.integer .lt)) := by decide
  have hlacks : m.memory.Lacks (Builtin.needs (.integer .lt) "integer") :=
    ⟨("boolean", .boolean), by decide, by decide⟩
  exact ⟨hlacks, (call_of_lacks m hop hlacks).1 source⟩

/-- A draw for a stack that does not take it is lost: the next one gets the value after it. -/
theorem call_of_lacks_draws :
    let m : Machine Empty := (ofKinds [.integer]).addStack "flags"
      (.withOperations .boolean (.standard .integer))
    let source : Script := ⟨[3, 7], []⟩
    let next := m.call "flags" "rand" source
    m.operation? "flags" "rand" = some (.builtin (.integer .rand)) ∧
    m.memory.Lacks (Builtin.needs (.integer .rand) "flags") ∧
    next.1 = m ∧ next.2 = ⟨[7], []⟩ ∧ next.2 ≠ source ∧
    (next.1.call "integer" "rand" next.2).1.elements? "integer" = some [.integer 7] := by
  intro m source next
  have hop : m.operation? "flags" "rand" = some (.builtin (.integer .rand)) := by decide
  have hlacks : m.memory.Lacks (Builtin.needs (.integer .rand) "flags") :=
    ⟨("flags", .integer), by decide, by decide⟩
  have hnext : next = (m, ⟨[7], []⟩) := m.call_eq_of_lacks hop hlacks source
  refine ⟨hop, hlacks, congrArg Prod.fst hnext, congrArg Prod.snd hnext, ?_, ?_⟩
  · rw [hnext]
    decide
  · rw [hnext]
    decide

end Machine
end StackMachine
