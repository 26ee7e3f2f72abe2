import StackMachine.Proofs.Firing
import StackMachine.Proofs.Steering

/-! The names, kinds and operation tables of the stacks stay what they were at the start of a run:
operations, literals, verbs and seeds change elements only. -/
namespace StackMachine

namespace Memory
variable {X : Type}

/-- The kind and the operations of each stack, without its elements. -/
def layout (m : Memory X) : NameMap (Kind × OperationTable X) :=
  m.mapEntries fun _ t => (t.kind, t.operations)

theorem get?_layout (m : Memory X) (name : String) :
    m.layout.get? name = (m.get? name).map fun t => (t.kind, t.operations) :=
  NameMap.get?_mapEntries _ m name

theorem layout_modify {m : Memory X} {name : String} {f : TypedStack X → TypedStack X}
    (h : ∀ t, (f t).kind = t.kind ∧ (f t).operations = t.operations) :
    layout (m.modify name f) = m.layout := by
  refine NameMap.ext_get? fun other => ?_
  rw [get?_layout, get?_layout, NameMap.get?_modify]
  split
  · rw [Option.map_map]
    refine congrArg (Option.map · (m.get? other)) (funext fun t => ?_)
    exact Prod.ext (h t).1 (h t).2
  · rfl

theorem layout_insert {m : Memory X} {name : String} {t u : TypedStack X}
    (ht : m.get? name = some t) (hk : u.kind = t.kind) (ho : u.operations = t.operations) :
    layout (m.insert name u) = m.layout := by
  refine NameMap.ext_get? fun other => ?_
  rw [get?_layout, get?_layout, NameMap.get?_insert]
  split
  · rename_i he
    subst he
    rw [ht, Option.map_some, Option.map_some, hk, ho]
  · rfl

theorem layout_pushAll (m : Memory X) (name : String) (elements : List Element) :
    (m.pushAll name elements).layout = m.layout :=
  layout_modify fun t => ⟨Contents.kind_foldl_push elements t.contents, rfl⟩

/-! Whatever operands give way to whatever results, the layout is the same. -/

theorem Replaces.layout_eq {m m' : Memory X} {source target : String}
    {operands results : List Element} (h : m.Replaces source operands target results m') :
    m'.layout = m.layout := by
  obtain ⟨rest, -, -, rfl, rfl⟩ := h
  rw [layout_pushAll, layout_pushAll]

section
variable {α β : Type} [Carrier α] [Carrier β]

theorem Converts.layout_eq {f : α → β} {source target : String} {m m' : Memory X}
    (h : m.Converts f source target m') : m'.layout = m.layout :=
  let ⟨_, h⟩ := h
  h.layout_eq

theorem Combines.layout_eq {f : α → α → β} {source target : String} {m m' : Memory X}
    (h : m.Combines f source target m') : m'.layout = m.layout :=
  let ⟨_, _, h⟩ := h
  h.layout_eq

theorem Divides.layout_eq {f : α → α → α} {target : String} {m m' : Memory X}
    (h : m.Divides f target m') : m'.layout = m.layout :=
  let ⟨_, _, _, h⟩ := h
  h.layout_eq

theorem Pops.layout_eq {a : Option α} {m m' : Memory X} (h : m.Pops a m') :
    m'.layout = m.layout := by
  cases a with
  | some a => exact Replaces.layout_eq h
  | none => rw [h.2]

end

/-- Elements that an index leads to change places, or nothing happens. -/
theorem layout_eq_of_indexed {inRange : Prop} [Decidable inRange] {target : String} {n : Int}
    {operands results : Element → List Element → List Element} {m m' : Memory X}
    (h : if inRange then ∃ x above, (above.length : Int) = n ∧
        m.Replaces target (operands x above) target (results x above) m'
      else m' = m) : m'.layout = m.layout := by
  split at h
  · obtain ⟨x, above, -, h⟩ := h
    exact h.layout_eq
  · rw [h]

theorem MovedAt.layout_eq {move : Int64 → Memory X → Memory X → Prop} {m m' : Memory X}
    (h : m.MovedAt move m') (hmove : ∀ index m m', move index m m' → m'.layout = m.layout) :
    m'.layout = m.layout := by
  obtain ⟨index, rest, h, hm⟩ := h
  rw [hmove _ _ _ hm, h.layout_eq]

end Memory

/-! No operation that fires changes the layout. -/
section
open Memory
variable {X σ : Type}

theorem CommonOp.Fires.layout_eq {op : CommonOp} {target : String} {m m' : Memory X}
    (h : op.Fires target m m') : m'.layout = m.layout := by
  cases op with
  | pop | dup =>
    obtain ⟨a, h⟩ := h
    exact h.layout_eq
  | swap =>
    obtain ⟨a, b, h⟩ := h
    exact h.layout_eq
  | rotate =>
    obtain ⟨a, b, c, h⟩ := h
    exact h.layout_eq
  | flush =>
    obtain ⟨t, -, h⟩ := h
    exact h.layout_eq
  | shove | yank | yankDup => exact MovedAt.layout_eq h fun _ _ _ => layout_eq_of_indexed
  | stackDepth => exact Replaces.layout_eq h

theorem BooleanOp.Fires.layout_eq {op : BooleanOp} {target : String} {m m' : Memory X}
    (h : op.Fires target m m') : m'.layout = m.layout := by
  cases op with
  | eq | and | or | xor => exact Combines.layout_eq h
  | not | fromInteger | fromFloat => exact Converts.layout_eq h

variable [RandomSource σ]

theorem IntegerOp.Fires.layout_eq {op : IntegerOp} {target : String} {source : σ}
    {m m' : Memory X} (h : op.Fires target source m m') : m'.layout = m.layout := by
  cases op with
  | add | sub | mul | min | max | lt | gt | eq => exact Combines.layout_eq h
  | div | rem => exact Divides.layout_eq h
  | fromBoolean | fromFloat => exact Converts.layout_eq h
  | rand => exact Replaces.layout_eq h

theorem FloatOp.Fires.layout_eq {op : FloatOp} {target : String} {source : σ}
    {m m' : Memory X} (h : op.Fires target source m m') : m'.layout = m.layout := by
  cases op with
  | add | sub | mul | min | max | lt | gt | eq => exact Combines.layout_eq h
  | div | rem => exact Divides.layout_eq h
  | sin | cos | tan | fromBoolean | fromInteger => exact Converts.layout_eq h
  | rand => exact Replaces.layout_eq h

theorem Builtin.Fires.layout_eq {op : Builtin} {target : String} {source : σ} {m m' : Memory X}
    (h : op.Fires target source m m') : m'.layout = m.layout := by
  cases op with
  | common op => exact CommonOp.Fires.layout_eq h
  | integer op => exact IntegerOp.Fires.layout_eq h
  | float op => exact FloatOp.Fires.layout_eq h
  | boolean op => exact BooleanOp.Fires.layout_eq h

theorem Builtin.layout_apply (op : Builtin) {m : Memory X} {target : String} {t : TypedStack X}
    (ht : m.get? target = some t) (source : σ) :
    (op.apply target m source).1.layout = m.layout := by
  have h := op.apply_atomic ht source
  cases he : op.enabled target m with
  | true => exact (h.fires_iff.mpr he).layout_eq
  | false => rw [h.unchanged he]

end

/-! Literals and seeds keep the kind and the operations of a stack. -/
namespace TypedStack
variable {X : Type}

theorem keeps_pushLiteral (token : String) (t : TypedStack X) :
    (t.pushLiteral token).kind = t.kind ∧ (t.pushLiteral token).operations = t.operations := by
  unfold pushLiteral
  split
  · exact ⟨Contents.kind_push t.contents _, rfl⟩
  · exact ⟨rfl, rfl⟩

theorem keeps_adopt? {t u : TypedStack X} {e : Element} (h : t.adopt? e = some u) :
    u.kind = t.kind ∧ u.operations = t.operations := by
  unfold adopt? at h
  obtain ⟨contents, hc, rfl⟩ := Option.map_eq_some_iff.mp h
  obtain ⟨e', -, hp⟩ := Option.bind_eq_some_iff.mp hc
  exact ⟨Contents.kind_of_push? hp, rfl⟩

theorem keeps_seed (t : TypedStack X) (elements : List Element) :
    (t.seed elements).1.kind = t.kind ∧ (t.seed elements).1.operations = t.operations := by
  unfold seed
  -- The count of the refused elements goes through the fold as well, so any count is allowed.
  generalize 0 = rejected
  induction elements generalizing t rejected with
  | nil => exact ⟨rfl, rfl⟩
  | cons e elements ih =>
    rw [List.foldl_cons]
    cases h : t.adopt? e with
    | none =>
      simp only [h]
      exact ih t _
    | some u =>
      have hu := keeps_adopt? h
      have hi := ih u rejected
      simp only [h]
      exact ⟨hi.1.trans hu.1, hi.2.trans hu.2⟩

end TypedStack

namespace Machine
open Memory

/-! The layout of a machine is the same after every instruction. -/
section
variable {X : Type}

theorem layout_seedStack (m : Machine X) (entry : String × List Element) :
    (m.seedStack entry).value.memory.layout = m.memory.layout := by
  unfold seedStack
  split
  · rfl
  · rename_i t ht
    have h := t.keeps_seed entry.2
    exact layout_insert ht h.1 h.2

theorem layout_seed (m : Machine X) (state : Snapshot) :
    (m.seed state).value.memory.layout = m.memory.layout := by
  refine seed_preserves (P := fun n => n.memory.layout = m.memory.layout) ?_ m state rfl
  intro n e hn
  rw [layout_seedStack, hn]

theorem layout_whenTrue (m : Machine X) {move : Machine X → Machine X}
    (h : ∀ m, (move m).memory.layout = m.memory.layout) :
    (m.whenTrue move).memory.layout = m.memory.layout := by
  obtain ⟨b, rest, hb, hw⟩ := m.whenTrue_eq move
  rw [hw]
  split
  · rw [h]
    exact hb.layout_eq
  · exact hb.layout_eq

theorem layout_jump (m : Machine X) : m.jump.memory.layout = m.memory.layout := by
  obtain ⟨target, rest, ht, hm, -⟩ := m.jump_eq
  rw [hm]
  exact ht.layout_eq

theorem layout_steer (m : Machine X) (verb : String) :
    (m.steer verb).memory.layout = m.memory.layout := by
  unfold steer
  split
  · rename_i verb _
    cases verb with
    | finish => rfl
    | finishIf => exact m.layout_whenTrue fun _ => rfl
    | jump => exact m.layout_jump
    | jumpIf => exact m.layout_whenTrue layout_jump
    | skipIf => exact m.layout_whenTrue fun _ => rfl
  · rfl

end

variable {σ : Type} [RandomSource σ]

theorem layout_call (m : Machine Empty) (stack function : String) (source : σ) :
    (m.call stack function source).1.memory.layout = m.memory.layout := by
  unfold call
  split
  · rename_i op h
    obtain ⟨t, ht, -⟩ := Option.bind_eq_some_iff.mp h
    exact op.layout_apply ht source
  · rename_i op _
    exact nomatch op
  · rfl

theorem layout_perform (m : Machine Empty) (i : Instruction) (source : σ) :
    (m.perform i source).1.memory.layout = m.memory.layout := by
  unfold perform
  split
  · exact layout_modify (TypedStack.keeps_pushLiteral i.token)
  · exact m.layout_call _ _ source
  · exact m.layout_steer _
  · rfl

theorem layout_round (fuse : Nat) {layout : NameMap (Kind × OperationTable Empty)}
    (s : Machine Empty × σ) (h : s.1.memory.layout = layout) :
    (round fuse s).state.1.memory.layout = layout :=
  round_preserves (P := fun s => s.1.memory.layout = layout) (fun _ _ h => h)
    (fun m source i _ h => (m.layout_perform i source).trans h) fuse s h

end Machine

theorem Interpreter.layout_start {σ : Type} (i : Interpreter σ) (program : Program)
    (state : Option Snapshot) :
    (i.start program state).1.memory.layout = (freshMachine i.options).memory.layout := by
  cases state with
  | none => rfl
  | some state => exact Machine.layout_seed _ state

end StackMachine
