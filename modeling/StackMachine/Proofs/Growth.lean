import Mathlib
import StackMachine.Proofs.Adoption
import StackMachine.Proofs.Budget

/-! How many elements the stacks of a run can hold. A seed brings as many as it adopts, and each
instruction that counts brings at most one more. -/
namespace StackMachine

namespace NameMap
variable {α : Type}

/-- The sum of a weight over the values of all names. -/
def sum (weight : α → Nat) (m : NameMap α) : Nat := (m.entries.map fun e => weight e.2).sum

/-- Changing the value of one name changes the sum by the weight of that value. -/
theorem sum_modify {m : NameMap α} {name : String} {v : α} (weight : α → Nat) (f : α → α)
    (h : m.get? name = some v) :
    (m.modify name f).sum weight + weight v = m.sum weight + weight (f v) := by
  obtain ⟨entries, hascending⟩ := m
  have hmem := get?_eq_some_iff.mp h
  simp only [sum, modify, mapEntries, List.map_map, Function.comp_def] at hmem ⊢
  clear h
  induction entries with
  | nil => cases hmem
  | cons e rest ih =>
    obtain ⟨hlt, hrest⟩ := List.pairwise_cons.mp hascending
    simp only [List.map_cons, List.sum_cons]
    rcases List.mem_cons.mp hmem with rfl | hmem
    · -- No other entry has the name, so the rest of the sum is the same.
      have hsame : (rest.map fun d => weight (if d.1 = name then f d.2 else d.2)) =
          rest.map fun d => weight d.2 := by
        refine List.map_congr_left fun d hd => ?_
        have hne : d.1 ≠ name := fun he => String.lt_irrefl name (he ▸ hlt d hd)
        rw [if_neg hne]
      rw [hsame, if_pos rfl]
      change weight (f v) + _ + weight v = weight v + _ + weight (f v)
      omega
    · have hlt : e.1 < name := hlt (name, v) hmem
      have hne : e.1 ≠ name := fun he => String.lt_irrefl name (he ▸ hlt)
      have hrest := ih hrest hmem
      rw [if_neg hne]
      omega

theorem modify_of_get?_eq_none {m : NameMap α} {name : String} (f : α → α)
    (h : m.get? name = none) : m.modify name f = m := by
  refine modify_eq_self fun v hv => ?_
  rw [h] at hv
  cases hv

end NameMap

theorem Contents.size_foldl_push {elements : List Element} {c : Contents}
    (h : ∀ e ∈ elements, e.kind = c.kind) :
    (elements.foldl push c).size = c.size + elements.length := by
  rw [← length_elements, elements_foldl_push h, List.length_append, length_elements]

theorem Contents.size_push_le (c : Contents) (e : Element) : (c.push e).size ≤ c.size + 1 := by
  cases c <;> cases e <;> simp [push, push?, size, Stack.size, Stack.push]

namespace Memory
variable {X : Type}

/-- The number of elements on all stacks. -/
def total (m : Memory X) : Nat := m.sum (·.contents.size)

theorem total_modify {m : Memory X} {name : String} {t : TypedStack X}
    (f : TypedStack X → TypedStack X) (h : m.get? name = some t) :
    total (m.modify name f) + t.contents.size = m.total + (f t).contents.size :=
  NameMap.sum_modify _ f h

theorem total_pushAll {m : Memory X} {name : String} {elements : List Element}
    (h : m.Takes name elements) :
    (m.pushAll name elements).total = m.total + elements.length := by
  obtain ⟨t, ht, hkind⟩ := h
  have hsum := total_modify (·.pushAll elements) ht
  have hsize : (t.pushAll elements).contents.size = t.contents.size + elements.length :=
    Contents.size_foldl_push hkind
  unfold pushAll
  omega

/-! The balance of whatever takes operands and gives results. -/

theorem Replaces.total_eq {m m' : Memory X} {source target : String}
    {operands results : List Element} (h : m.Replaces source operands target results m') :
    m'.total + operands.length = m.total + results.length := by
  obtain ⟨rest, hsource, htarget, rfl, rfl⟩ := h
  rw [total_pushAll hsource, total_pushAll htarget]
  omega

theorem Replaces.total_le {m m' : Memory X} {source target : String}
    {operands results : List Element} (h : m.Replaces source operands target results m')
    (hle : results.length ≤ operands.length + 1) : m'.total ≤ m.total + 1 := by
  have := h.total_eq
  omega

section
variable {α β : Type} [Carrier α] [Carrier β]

theorem Converts.total_le {f : α → β} {source target : String} {m m' : Memory X}
    (h : m.Converts f source target m') : m'.total ≤ m.total + 1 := by
  obtain ⟨a, h⟩ := h
  exact h.total_le (Nat.le_succ _)

theorem Combines.total_le {f : α → α → β} {source target : String} {m m' : Memory X}
    (h : m.Combines f source target m') : m'.total ≤ m.total + 1 := by
  obtain ⟨a, b, h⟩ := h
  exact h.total_le (Nat.le_of_ble_eq_true rfl)

theorem Divides.total_le {f : α → α → α} {target : String} {m m' : Memory X}
    (h : m.Divides f target m') : m'.total ≤ m.total + 1 := by
  obtain ⟨a, b, -, h⟩ := h
  exact h.total_le (Nat.le_of_ble_eq_true rfl)

theorem Pops.total_le {a : Option α} {m m' : Memory X} (h : m.Pops a m') :
    m'.total ≤ m.total := by
  cases a with
  | some a =>
    have := Replaces.total_eq h
    simp only [List.length_singleton, List.length_nil] at this
    omega
  | none =>
    have hsame : m' = m := h.2
    exact Nat.le_of_eq (congrArg total hsame)

end

theorem total_le_of_indexed {inRange : Prop} [Decidable inRange] {target : String} {n : Int}
    {operands results : Element → List Element → List Element} {m m' : Memory X}
    (hle : ∀ x above, (results x above).length ≤ (operands x above).length + 1)
    (h : if inRange then ∃ x above, (above.length : Int) = n ∧
        m.Replaces target (operands x above) target (results x above) m'
      else m' = m) : m'.total ≤ m.total + 1 := by
  split at h
  · obtain ⟨x, above, -, h⟩ := h
    exact h.total_le (hle x above)
  · rw [h]
    exact Nat.le_succ _

/-- The index that is taken makes up for the copy that a move can leave. -/
theorem MovedAt.total_le {move : Int64 → Memory X → Memory X → Prop} {m m' : Memory X}
    (h : m.MovedAt move m') (hmove : ∀ index m m', move index m m' → m'.total ≤ m.total + 1) :
    m'.total ≤ m.total := by
  obtain ⟨index, rest, h, hm⟩ := h
  have hindex := h.total_eq
  have hrest := hmove _ _ _ hm
  simp only [List.length_singleton, List.length_nil] at hindex
  omega

end Memory

/-! Every operation that fires adds at most one element. -/
section
open Memory
variable {X σ : Type}

theorem CommonOp.Fires.total_le {op : CommonOp} {target : String} {m m' : Memory X}
    (h : op.Fires target m m') : m'.total ≤ m.total + 1 := by
  cases op with
  | pop | dup =>
    obtain ⟨a, h⟩ := h
    exact h.total_le (by simp)
  | swap =>
    obtain ⟨a, b, h⟩ := h
    exact h.total_le (by simp)
  | rotate =>
    obtain ⟨a, b, c, h⟩ := h
    exact h.total_le (by simp)
  | flush =>
    obtain ⟨t, -, h⟩ := h
    exact h.total_le (by simp)
  | shove | yank | yankDup =>
    refine Nat.le_succ_of_le (MovedAt.total_le h fun _ _ _ => total_le_of_indexed ?_)
    intro x above
    simp
  | stackDepth => exact Replaces.total_le h (by simp)

theorem BooleanOp.Fires.total_le {op : BooleanOp} {target : String} {m m' : Memory X}
    (h : op.Fires target m m') : m'.total ≤ m.total + 1 := by
  cases op with
  | eq | and | or | xor => exact Combines.total_le h
  | not | fromInteger | fromFloat => exact Converts.total_le h

variable [RandomSource σ]

theorem IntegerOp.Fires.total_le {op : IntegerOp} {target : String} {source : σ}
    {m m' : Memory X} (h : op.Fires target source m m') : m'.total ≤ m.total + 1 := by
  cases op with
  | add | sub | mul | min | max | lt | gt | eq => exact Combines.total_le h
  | div | rem => exact Divides.total_le h
  | fromBoolean | fromFloat => exact Converts.total_le h
  | rand => exact Replaces.total_le h (by simp)

theorem FloatOp.Fires.total_le {op : FloatOp} {target : String} {source : σ}
    {m m' : Memory X} (h : op.Fires target source m m') : m'.total ≤ m.total + 1 := by
  cases op with
  | add | sub | mul | min | max | lt | gt | eq => exact Combines.total_le h
  | div | rem => exact Divides.total_le h
  | sin | cos | tan | fromBoolean | fromInteger => exact Converts.total_le h
  | rand => exact Replaces.total_le h (by simp)

theorem Builtin.Fires.total_le {op : Builtin} {target : String} {source : σ} {m m' : Memory X}
    (h : op.Fires target source m m') : m'.total ≤ m.total + 1 := by
  cases op with
  | common op => exact CommonOp.Fires.total_le h
  | integer op => exact IntegerOp.Fires.total_le h
  | float op => exact FloatOp.Fires.total_le h
  | boolean op => exact BooleanOp.Fires.total_le h

theorem Builtin.total_apply_le (op : Builtin) {m : Memory X} {target : String} {t : TypedStack X}
    (ht : m.get? target = some t) (source : σ) :
    (op.apply target m source).1.total ≤ m.total + 1 := by
  have h := op.apply_atomic ht source
  cases he : op.enabled target m with
  | true => exact (h.fires_iff.mpr he).total_le
  | false =>
    rw [h.unchanged he]
    exact Nat.le_succ _

end

theorem TypedStack.size_pushLiteral_le {X : Type} (token : String) (t : TypedStack X) :
    (t.pushLiteral token).contents.size ≤ t.contents.size + 1 := by
  unfold pushLiteral
  split
  · exact t.contents.size_push_le _
  · exact Nat.le_succ _

namespace Machine
open Memory

section
variable {X : Type}

theorem total_pushLiteral_le (m : Machine X) (kind : Kind) (token : String) :
    (m.pushLiteral kind token).memory.total ≤ m.memory.total + 1 := by
  unfold pushLiteral
  cases ht : m.memory.get? kind.name with
  | none =>
    rw [NameMap.modify_of_get?_eq_none _ ht]
    exact Nat.le_succ _
  | some t =>
    have hsum := total_modify (·.pushLiteral token) ht
    have hsize := t.size_pushLiteral_le token
    change total (m.memory.modify kind.name (·.pushLiteral token)) ≤ _
    omega

theorem total_whenTrue_le (m : Machine X) {move : Machine X → Machine X}
    (h : ∀ m, (move m).memory.total ≤ m.memory.total) :
    (m.whenTrue move).memory.total ≤ m.memory.total := by
  obtain ⟨b, rest, hb, hw⟩ := m.whenTrue_eq move
  rw [hw]
  split
  · exact Nat.le_trans (h _) hb.total_le
  · exact hb.total_le

theorem total_jump_le (m : Machine X) : m.jump.memory.total ≤ m.memory.total := by
  obtain ⟨target, rest, ht, hm, -⟩ := m.jump_eq
  rw [hm]
  exact ht.total_le

theorem total_steer_le (m : Machine X) (verb : String) :
    (m.steer verb).memory.total ≤ m.memory.total := by
  unfold steer
  split
  · rename_i verb _
    cases verb with
    | finish => exact Nat.le_refl _
    | finishIf => exact m.total_whenTrue_le fun _ => Nat.le_refl _
    | jump => exact m.total_jump_le
    | jumpIf => exact m.total_whenTrue_le total_jump_le
    | skipIf => exact m.total_whenTrue_le fun _ => Nat.le_refl _
  · exact Nat.le_refl _

/-- The number of elements of a snapshot that the stacks of a machine adopt. -/
def adoptedCount (m : Machine X) (state : Snapshot) : Nat :=
  (state.entries.map fun entry => (m.kind? entry.1).elim 0 fun kind =>
    entry.2.countP fun e => (kind.adopt? e).isSome).sum

theorem total_seedStack (m : Machine X) (entry : String × List Element) :
    (m.seedStack entry).value.memory.total = m.memory.total +
      (m.kind? entry.1).elim 0 fun kind => entry.2.countP fun e => (kind.adopt? e).isSome := by
  rw [value_seedStack]
  unfold kind?
  cases ht : m.memory.get? entry.1 with
  | none =>
    rw [NameMap.modify_of_get?_eq_none _ ht]
    rfl
  | some t =>
    have hsum := total_modify (fun t => (t.seed entry.2).1) ht
    have hsize : (t.seed entry.2).1.contents.size = t.contents.size +
        entry.2.countP fun e => (t.kind.adopt? e).isSome := by
      rw [← Contents.length_elements, t.elements_seed, List.length_append,
        Contents.length_elements, List.length_filterMap_eq_countP]
    change total (m.memory.modify entry.1 fun t => (t.seed entry.2).1) = m.memory.total +
      entry.2.countP fun e => (t.kind.adopt? e).isSome
    omega

theorem total_seed (m : Machine X) (state : Snapshot) :
    (m.seed state).value.memory.total = m.memory.total + m.adoptedCount state := by
  rw [value_seed]
  unfold adoptedCount
  generalize state.entries = entries
  induction entries generalizing m with
  | nil => rfl
  | cons entry entries ih =>
    have hkind := kind?_eq_of_layout (m.layout_seedStack entry)
    rw [List.foldl_cons, ih, total_seedStack]
    simp only [hkind, List.map_cons, List.sum_cons]
    omega

theorem IsBlank.total_eq_zero {m : Machine X} (h : m.IsBlank) : m.memory.total = 0 := by
  unfold total NameMap.sum
  rw [List.sum_eq_zero_iff_forall_eq_nat]
  intro n hn
  obtain ⟨e, he, rfl⟩ := List.mem_map.mp hn
  have hempty := h.elements_eq_nil (NameMap.get?_eq_some_iff.mpr he)
  have hsize : e.2.contents.size = 0 := by
    rw [← Contents.length_elements, hempty]
    rfl
  exact hsize

end

variable {σ : Type} [RandomSource σ]

theorem total_call_le (m : Machine Empty) (stack function : String) (source : σ) :
    (m.call stack function source).1.memory.total ≤ m.memory.total + 1 := by
  unfold call
  split
  · rename_i op h
    obtain ⟨t, ht, -⟩ := Option.bind_eq_some_iff.mp h
    exact op.total_apply_le ht source
  · rename_i op _
    exact nomatch op
  · exact Nat.le_succ _

/-- No instruction adds more than one element. -/
theorem total_perform_le (m : Machine Empty) (i : Instruction) (source : σ) :
    (m.perform i source).1.memory.total ≤ m.memory.total + 1 := by
  unfold perform
  split
  · exact m.total_pushLiteral_le _ _
  · exact m.total_call_le _ _ source
  · exact Nat.le_succ_of_le (m.total_steer_le _)
  · exact Nat.le_succ _

/-- A machine holds no more elements than at first and one for each instruction that counted. -/
def GrownWithin (initial : Nat) (m : Machine Empty) : Prop := m.memory.total ≤ initial + m.executed

theorem GrownWithin.round (fuse : Nat) {initial : Nat} (s : Machine Empty × σ)
    (h : GrownWithin initial s.1) : GrownWithin initial (round fuse s).state.1 := by
  refine round_preserves (P := fun s => GrownWithin initial s.1) (fun _ _ h => h) ?_ fuse s h
  intro m source i _ hm
  have hperform := m.total_perform_le i source
  have hm : m.memory.total ≤ initial + m.executed := hm
  change (m.perform i source).1.memory.total ≤ initial + (m.executed + 1)
  omega

end Machine

namespace Interpreter
variable {σ : Type}
open Machine

/-- The number of elements that the stacks of a run adopt from the snapshot it starts from. -/
def seededCount (i : Interpreter σ) (state : Option Snapshot) : Nat :=
  state.elim 0 (freshMachine i.options).adoptedCount

theorem total_start (i : Interpreter σ) (program : Program) (state : Option Snapshot) :
    (i.start program state).1.memory.total = i.seededCount state := by
  have hzero : (freshMachine i.options).memory.total = 0 :=
    (isBlank_ofKinds i.options.kinds).total_eq_zero
  cases state with
  | none => exact hzero
  | some state =>
    have hseed := (freshMachine i.options).total_seed state
    rw [hzero, Nat.zero_add] at hseed
    exact hseed

variable [RandomSource σ]

/-- In every round and at the end of every execution the stacks hold at most as many elements as the
seed brought and instructions were counted, and so never more than the budget allows. An instruction
that is not counted yet is at most one element ahead of that. The count fits a word unless the
budget is the greatest word. -/
theorem total_within_budget (i : Interpreter σ) (program : Program) (state : Option Snapshot) :
    (∀ s, i.Occurs program state s →
      s.1.memory.total ≤ i.seededCount state + s.1.executed ∧
      s.1.memory.total ≤ i.seededCount state + (i.options.maxInstructions.toNat + 1)) ∧
    (∀ n s c, i.Visits program state n s → s.1.cursor.current? = some c →
      (s.1.perform c s.2).1.memory.total ≤ i.seededCount state + (s.1.executed + 1) ∧
      (s.1.perform c s.2).1.memory.total ≤
        i.seededCount state + (i.options.maxInstructions.toNat + 1)) ∧
    (i.options.maxInstructions.toNat < UInt64.size - 1 → i.CountFits program state) := by
  have hgrown (s : Machine Empty × σ) (hs : i.Occurs program state s) :
      s.1.memory.total ≤ i.seededCount state + s.1.executed := by
    refine hs.invariant (P := fun s => GrownWithin (i.seededCount state) s.1)
      (GrownWithin.round i.fuse) ?_
    unfold GrownWithin
    rw [total_start]
    exact Nat.le_add_right _ _
  have hfuse : i.fuse = i.options.maxInstructions.toNat := rfl
  refine ⟨?_, ?_, fun hmax => countFits_of_budget hmax program state⟩
  · intro s hs
    have htotal := hgrown s hs
    have hcount := executed_of_occurs hs
    exact ⟨htotal, by omega⟩
  · intro n s c hs _
    have htotal := hgrown s (.inl ⟨n, hs⟩)
    have hcount := executed_of_visits hs
    have hperform := s.1.total_perform_le c s.2
    exact ⟨by omega, by omega⟩

end Interpreter
end StackMachine
