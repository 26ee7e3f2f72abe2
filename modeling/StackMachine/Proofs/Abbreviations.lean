import StackMachine.Proofs.Depths
import StackMachine.Proofs.Locality

/-! Operations that are short for positional ones. Exchanging, rotating and duplicating do what a
positional operation does at a fixed index, so an index that is pushed and taken at once can be
left out, also where the operation is called on the stack that holds the index. -/
namespace StackMachine

namespace Stack
variable {α : Type}

theorem swap_eq_yank (s : Stack α) : s.swap = s.yank 1 := by
  have hone : (1 : Int64).toInt = 1 := rfl
  by_cases h : 2 ≤ s.size
  · obtain ⟨a, b, below, rfl⟩ := exists_pushAll_two h
    have hyank : (below.pushAll [a, b]).yank 1 = below.pushAll [b, a] :=
      yank_pushAll below hone Nat.one_pos
    exact hyank.symm
  · rw [swap_eq_self (by omega), yank_eq_self (by omega)]

theorem swap_eq_shoveTop (s : Stack α) : s.swap = s.shoveTop 0 := by
  have hzero : (0 : Int64).toInt = 0 := rfl
  by_cases h : 2 ≤ s.size
  · obtain ⟨a, b, below, rfl⟩ := exists_pushAll_two h
    have hshove : (below.pushAll ([a] ++ [b])).shoveTop 0 = below.pushAll [b, a] :=
      shoveTop_pushAll below (Int.le_of_eq hzero.symm) rfl
    exact hshove.symm
  · rw [swap_eq_self (by omega), shoveTop_eq_self (by omega)]

theorem rotate_eq_yank (s : Stack α) : s.rotate = s.yank 2 := by
  have htwo : (2 : Int64).toInt = 2 := rfl
  by_cases h : 3 ≤ s.size
  · obtain ⟨a, b, c, below, rfl⟩ := exists_pushAll_three h
    have hyank : (below.pushAll [a, b, c]).yank 2 = below.pushAll [b, c, a] :=
      yank_pushAll below htwo Nat.two_pos
    exact hyank.symm
  · rw [rotate_eq_self (by omega), yank_eq_self (by omega)]

theorem dup_eq_yankDup (s : Stack α) : s.dup = s.yankDup 0 := by
  have hzero : (0 : Int64).toInt = 0 := rfl
  by_cases h : 1 ≤ s.size
  · obtain ⟨a, below, rfl⟩ := exists_pushAll_one h
    have hcopy : (below.pushAll [a]).yankDup 0 = below.pushAll [a, a] :=
      yankDup_pushAll below hzero
    exact hcopy.symm
  · rw [dup_eq_self (by omega), yankDup_eq_self (by omega)]

end Stack

/-- The operations that are short for a positional one, with that operation and its index. -/
inductive CommonOp.ShortFor : CommonOp → CommonOp → Int64 → Prop
  | swapYank : ShortFor .swap .yank 1
  | swapShove : ShortFor .swap .shove 0
  | rotateYank : ShortFor .rotate .yank 2
  | dupYankDup : ShortFor .dup .yankDup 0

namespace Contents

/-- Rearrangements that agree on the stacks of every type agree on all contents. -/
theorem map_congr {f g : (α : Type) → Stack α → Stack α} (h : ∀ (α : Type) s, f α s = g α s)
    (c : Contents) : c.map f = c.map g := by
  have hfg : f = g := funext fun α => funext (h α)
  rw [hfg]

end Contents

namespace Memory
variable {X : Type} {m : Memory X} {s : Stack Int64}

theorem contains_put {α : Type} [Carrier α] (m : Memory X) (name other : String) (s : Stack α) :
    (m.put name s).contains other = m.contains other := by
  unfold NameMap.contains put
  rw [NameMap.get?_modify]
  split
  · exact Option.isSome_map
  · rfl

/-- An index that was just pushed is taken off again, and the target is rearranged by it. -/
theorem rearrangeAt_put_push (hs : m.typed? Int64 (home Int64) = some s) {target : String}
    (ht : m.contains target = true) (f : Contents → Int64 → Contents) (index : Int64) :
    (m.put (home Int64) (s.push index)).rearrangeAt f target = m.rearrange (f · index) target := by
  have hpushed := typed?_put_self (s.push index) hs
  have hpop : (s.push index).pop? = some (index, s) := rfl
  unfold rearrangeAt
  rw [contains_put, if_pos ht, hpushed, Option.bind_some, hpop]
  simp only [put_put, put_eq_self hs]

theorem apply_of_shortFor {op positional : CommonOp} {index : Int64}
    (h : op.ShortFor positional index) (hs : m.typed? Int64 (home Int64) = some s)
    {target : String} (ht : m.contains target = true) :
    positional.apply target (m.put (home Int64) (s.push index)) = op.apply target m := by
  have hpushed (f : Contents → Int64 → Contents) := rearrangeAt_put_push hs ht f index
  have hsame {f g : Contents → Contents} (hfg : ∀ c, f c = g c) :
      m.rearrange f target = m.rearrange g target := by
    rw [funext hfg]
  cases h with
  | swapYank =>
    refine (hpushed Contents.yank).trans (hsame fun c => ?_)
    exact c.map_congr fun α s => s.swap_eq_yank.symm
  | swapShove =>
    refine (hpushed Contents.shoveTop).trans (hsame fun c => ?_)
    exact c.map_congr fun α s => s.swap_eq_shoveTop.symm
  | rotateYank =>
    refine (hpushed Contents.yank).trans (hsame fun c => ?_)
    exact c.map_congr fun α s => s.rotate_eq_yank.symm
  | dupYankDup =>
    refine (hpushed Contents.yankDup).trans (hsame fun c => ?_)
    exact c.map_congr fun α s => s.dup_eq_yankDup.symm

/-- A literal of an integer stack pushes what its token denotes. -/
theorem modify_pushLiteral {name token : String} {index : Int64}
    (hs : m.typed? Int64 name = some s)
    (htoken : Kind.integer.parse? token = some (.integer index)) :
    m.modify name (·.pushLiteral token) = m.put name (s.push index) := by
  obtain ⟨t, ht, hcontents⟩ := typed?_eq_some_iff.mp hs
  refine NameMap.modify_congr fun u hu => ?_
  cases ht.symm.trans hu
  have hkind : t.kind = .integer := congrArg Contents.kind hcontents
  have hpush : t.contents.push (.integer index) = Carrier.wrap (s.push index) := by
    rw [hcontents]
    exact LawfulCarrier.push_wrap s index
  unfold TypedStack.pushLiteral
  rw [hkind, htoken]
  simp only [TypedStack.mapContents, hpush]

end Memory

namespace Machine
variable {X σ : Type} [Host X] [RandomSource σ]

/-- Every operation that is short for a positional one does, on each stack that offers the common
operations, what pushing the index as a literal and calling the positional one does. -/
theorem call_shortFor :
    (∀ {α : Type} (s : Stack α), s.swap = s.yank 1 ∧ s.swap = s.shoveTop 0 ∧
      s.rotate = s.yank 2 ∧ s.dup = s.yankDup 0) ∧
    ∀ (m : Machine X) {integers : TypedStack X} {target : String} (source : σ),
      m.memory.get? "integer" = some integers → integers.kind = .integer →
      (∀ op : CommonOp, m.operation? target op.name = some (.builtin (.common op))) →
      ∀ {op positional : CommonOp} {index : Int64} {token : String},
        op.ShortFor positional index → Kind.integer.parse? token = some (.integer index) →
        (m.pushLiteral .integer token).call target positional.name source =
          m.call target op.name source := by
  refine ⟨fun s => ⟨s.swap_eq_yank, s.swap_eq_shoveTop, s.rotate_eq_yank, s.dup_eq_yankDup⟩, ?_⟩
  intro m integers target source hintegers hkind hcommon op positional index token hshort htoken
  obtain ⟨s, hs⟩ := LawfulCarrier.exists_wrap (α := Int64) integers.contents hkind
  have htyped : m.memory.typed? Int64 (Memory.home Int64) = some s :=
    Memory.typed?_eq_some_iff.mpr ⟨integers, hintegers, hs⟩
  have htarget : m.memory.contains target = true := by
    have hop := hcommon op
    unfold operation? at hop
    obtain ⟨t, ht, -⟩ := Option.bind_eq_some_iff.mp hop
    exact NameMap.contains_iff.mpr ⟨t, ht⟩
  have hlayout : (m.pushLiteral .integer token).memory.layout = m.memory.layout :=
    Memory.layout_modify (TypedStack.keeps_pushLiteral token)
  have hpositional :=
    (operation?_eq_of_layout hlayout target positional.name).trans (hcommon positional)
  have hpushed : (m.pushLiteral .integer token).memory =
      m.memory.put (Memory.home Int64) (s.push index) := Memory.modify_pushLiteral htyped htoken
  have happly := Memory.apply_of_shortFor hshort htyped htarget
  rw [call_eq_apply hpositional, call_eq_apply (hcommon op), hpushed]
  simp only [Builtin.apply, happly]
  rfl

/-- An index on the very stack that is rotated by it. -/
theorem call_shortFor_own_index :
    let integers : TypedStack Empty :=
      (TypedStack.standard .integer).pushAll [.integer 7, .integer 8, .integer 9]
    let m : Machine Empty := standard.addStack "integer" integers
    let source : Script := ⟨[], []⟩
    m.memory.get? "integer" = some integers ∧ integers.kind = .integer ∧
    (∀ op : CommonOp, m.operation? "integer" op.name = some (.builtin (.common op))) ∧
    CommonOp.ShortFor .rotate .yank 2 ∧ Kind.integer.parse? "02" = some (.integer 2) ∧
    (m.pushLiteral .integer "02").call "integer" "yank" source =
      m.call "integer" "rotate" source ∧
    (m.call "integer" "rotate" source).1.elements? "integer" =
      some [.integer 8, .integer 9, .integer 7] := by
  intro integers m source
  have hintegers : m.memory.get? "integer" = some integers :=
    (NameMap.get?_insert _ _ _ _).trans (if_pos rfl)
  have hcommon : ∀ op : CommonOp,
      m.operation? "integer" op.name = some (.builtin (.common op)) := by
    intro op
    cases op <;> decide
  have htoken : Kind.integer.parse? "02" = some (.integer 2) := by decide
  have h := call_shortFor.2 m source hintegers rfl hcommon .rotateYank htoken
  exact ⟨hintegers, rfl, hcommon, .rotateYank, htoken, h, by decide⟩

end Machine
end StackMachine
