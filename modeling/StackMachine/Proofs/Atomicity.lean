import StackMachine.Proofs.Positions
import StackMachine.Proofs.Replacement

/-! The elementary ways to change a memory do all of their work or none of it. -/
namespace StackMachine

/-- Whether nothing can be divided by an element. -/
def Element.isZero : Element → Bool
  | .integer n => n = 0
  | .float x => x == 0.0
  | .boolean _ => false

namespace Memory
variable {X : Type}

/-- An operation fires exactly if it is enabled, and otherwise changes nothing. -/
structure Atomic (enabled : Bool) (fires : Memory X → Prop) (m m' : Memory X) : Prop where
  fires_iff : fires m' ↔ enabled = true
  unchanged : enabled = false → m' = m

theorem Atomic.congr {enabled enabled' : Bool} {fires fires' : Memory X → Prop} {m m' : Memory X}
    (h : Atomic enabled fires m m') (he : enabled' = enabled) (hf : ∀ m', fires' m' ↔ fires m') :
    Atomic enabled' fires' m m' := by
  subst he
  exact ⟨(hf m').trans h.fires_iff, h.unchanged⟩

/-! Rearrangements of the target. -/

/-- The values of every stack belong to some carrier, for which a rearrangement is a new value. -/
theorem exists_rearrange_eq_put {m : Memory X} {target : String} {t : TypedStack X}
    (ht : m.get? target = some t) (f : (α : Type) → Stack α → Stack α) :
    ∃ (α : Type) (_ : Carrier α) (_ : LawfulCarrier α) (s : Stack α),
      m.typed? α target = some s ∧ t.contents.size = s.size ∧
      m.rearrange (·.map f) target = m.put target (f α s) := by
  obtain ⟨α, hα, hl, s, hs⟩ := t.contents.exists_carrier
  refine ⟨α, hα, hl, s, typed?_eq_some_iff.mpr ⟨t, ht, hs⟩, ?_, ?_⟩
  · rw [hs, LawfulCarrier.size_wrap]
  · refine NameMap.modify_congr fun u hu => ?_
    cases ht.symm.trans hu
    rw [TypedStack.mapContents, hs, LawfulCarrier.map_wrap]

/-- What a rearrangement does is settled by the size of the target. -/
theorem rearrange_by_size {m : Memory X} {target : String} {t : TypedStack X}
    {f : (α : Type) → Stack α → Stack α} (inRange : Nat → Prop) [DecidablePred inRange]
    (fires : Memory X → Prop) (ht : m.get? target = some t)
    (hon : ∀ (α : Type) [Carrier α] [LawfulCarrier α] (s : Stack α), m.typed? α target = some s →
      inRange s.size → fires (m.put target (f α s)))
    (hoff : ∀ (α : Type) (s : Stack α), ¬inRange s.size → f α s = s) :
    if inRange (m.size target) then fires (m.rearrange (·.map f) target)
    else m.rearrange (·.map f) target = m := by
  obtain ⟨α, _, _, s, hs, hsize, hput⟩ := exists_rearrange_eq_put ht f
  rw [size_eq ht, hsize, hput]
  split
  · rename_i h
    exact hon α s hs h
  · rename_i h
    rw [hoff α s h, put_eq_self hs]

/-- A rearrangement that needs a number of elements fires if they are there. -/
theorem rearrange_atomic {m : Memory X} {target : String} {t : TypedStack X} {n : Nat}
    {f : (α : Type) → Stack α → Stack α} {fires : Memory X → Prop} (ht : m.get? target = some t)
    (hon : ∀ (α : Type) [Carrier α] [LawfulCarrier α] (s : Stack α), m.typed? α target = some s →
      n ≤ s.size → fires (m.put target (f α s)))
    (hoff : ∀ (α : Type) (s : Stack α), s.size < n → f α s = s)
    (hback : ∀ m', fires m' → m.has target n = true) :
    Atomic (m.has target n) fires m (m.rearrange (·.map f) target) := by
  have hsize : m.has target n = true ↔ n ≤ m.size target := by
    rw [size_eq ht, has_eq_true_iff]
    exact ⟨fun ⟨u, hu, h⟩ => by cases ht.symm.trans hu; exact h, fun h => ⟨t, ht, h⟩⟩
  have h := rearrange_by_size (n ≤ ·) fires ht hon fun α s h => hoff α s (Nat.lt_of_not_le h)
  refine ⟨⟨hback _, fun he => ?_⟩, fun he => ?_⟩
  · rwa [if_pos (hsize.mp he)] at h
  · rwa [if_neg fun hn => by rw [hsize.mpr hn] at he; cases he] at h

/-! Rearrangements with an index. The index is gone before the target is looked at, which matters
where the target holds the index itself. -/

/-- The element at an index has moved to the top; the top itself is out of range. -/
def Yanked (target : String) (index : Int64) (m m' : Memory X) : Prop :=
  if 1 ≤ index.toInt ∧ index.toInt < m.size target then
    ∃ x above, (above.length : Int) = index.toInt ∧
      m.Replaces target (x :: above) target (above ++ [x]) m'
  else m' = m

/-- A copy of the element at an index has been pushed. -/
def Copied (target : String) (index : Int64) (m m' : Memory X) : Prop :=
  if 0 ≤ index.toInt ∧ index.toInt < m.size target then
    ∃ x above, (above.length : Int) = index.toInt ∧
      m.Replaces target (x :: above) target (x :: (above ++ [x])) m'
  else m' = m

/-- The top has moved below the element at an index, which counts what remains without it. -/
def Shoved (target : String) (index : Int64) (m m' : Memory X) : Prop :=
  if 0 ≤ index.toInt ∧ index.toInt + 1 < m.size target then
    ∃ x above, (above.length : Int) = index.toInt + 1 ∧
      m.Replaces target (above ++ [x]) target (x :: above) m'
  else m' = m

/-- An index was taken from the standard integer stack, and then the target was moved by it. -/
def MovedAt (move : Int64 → Memory X → Memory X → Prop) (m m' : Memory X) : Prop :=
  ∃ index rest, m.Replaces (home Int64) [.integer index] (home Int64) [] rest ∧ move index rest m'

theorem yanked_rearrange {m : Memory X} {target : String} {t : TypedStack X}
    (ht : m.get? target = some t) (index : Int64) :
    m.Yanked target index (m.rearrange (·.yank index) target) := by
  refine rearrange_by_size (fun n => 1 ≤ index.toInt ∧ index.toInt < n)
    (fun m' => ∃ x above, (above.length : Int) = index.toInt ∧
      m.Replaces target (x :: above) target (above ++ [x]) m')
    ht ?_ fun _ _ => Stack.yank_eq_self
  intro α _ _ s hs h
  have hn : index.toInt.toNat < s.size := by omega
  obtain ⟨x, above, below, ha, rfl⟩ := Stack.exists_pushAll_cons hn
  refine ⟨Carrier.element x, above.map Carrier.element, by rw [List.length_map]; omega, ?_⟩
  rw [Stack.yank_pushAll below (by omega) (by omega)]
  simpa using replaces_put (x :: above) (above ++ [x]) hs

theorem copied_rearrange {m : Memory X} {target : String} {t : TypedStack X}
    (ht : m.get? target = some t) (index : Int64) :
    m.Copied target index (m.rearrange (·.yankDup index) target) := by
  refine rearrange_by_size (fun n => 0 ≤ index.toInt ∧ index.toInt < n)
    (fun m' => ∃ x above, (above.length : Int) = index.toInt ∧
      m.Replaces target (x :: above) target (x :: (above ++ [x])) m')
    ht ?_ fun _ _ => Stack.yankDup_eq_self
  intro α _ _ s hs h
  have hn : index.toInt.toNat < s.size := by omega
  obtain ⟨x, above, below, ha, rfl⟩ := Stack.exists_pushAll_cons hn
  refine ⟨Carrier.element x, above.map Carrier.element, by rw [List.length_map]; omega, ?_⟩
  rw [Stack.yankDup_pushAll below (by omega)]
  simpa using replaces_put (x :: above) (x :: (above ++ [x])) hs

theorem shoved_rearrange {m : Memory X} {target : String} {t : TypedStack X}
    (ht : m.get? target = some t) (index : Int64) :
    m.Shoved target index (m.rearrange (·.shoveTop index) target) := by
  refine rearrange_by_size (fun n => 0 ≤ index.toInt ∧ index.toInt + 1 < n)
    (fun m' => ∃ x above, (above.length : Int) = index.toInt + 1 ∧
      m.Replaces target (above ++ [x]) target (x :: above) m')
    ht ?_ fun _ _ => Stack.shoveTop_eq_self
  intro α _ _ s hs h
  have hn : index.toInt.toNat + 1 < s.size := by omega
  obtain ⟨x, above, below, ha, rfl⟩ := Stack.exists_pushAll_concat hn
  refine ⟨Carrier.element x, above.map Carrier.element, by rw [List.length_map]; omega, ?_⟩
  rw [Stack.shoveTop_pushAll below (by omega) (by omega)]
  simpa using replaces_put (above ++ [x]) (x :: above) hs

/-! Operands of a carrier. -/
section
variable {α β : Type} [Carrier α] [Carrier β]

/-- One operand has given way to a value computed from it. -/
def Converts (f : α → β) (source target : String) (m m' : Memory X) : Prop :=
  ∃ a, m.Replaces source [Carrier.element a] target [Carrier.element (f a)] m'

/-- Two operands have given way to a value computed from them. -/
def Combines (f : α → α → β) (source target : String) (m m' : Memory X) : Prop :=
  ∃ a b, m.Replaces source [Carrier.element a, Carrier.element b] target
    [Carrier.element (f a b)] m'

/-- The same, where the top is not zero. -/
def Divides (f : α → α → α) (target : String) (m m' : Memory X) : Prop :=
  ∃ a b : α, (Carrier.element b).isZero = false ∧
    m.Replaces target [Carrier.element a, Carrier.element b] target [Carrier.element (f a b)] m'

variable [LawfulCarrier α] [LawfulCarrier β]

/-- The kind of the operands tells that a stack holds two of them. -/
theorem holds_of_replaces_pair {m m' : Memory X} {source target : String} {a b : α}
    {results : List Element}
    (h : m.Replaces source [Carrier.element a, Carrier.element b] target results m') :
    m.holds source (Carrier.kind α) 2 = true := by
  rw [← LawfulCarrier.kind_element a]
  exact h.holds_source List.mem_cons_self

theorem holds_of_replaces_one {m m' : Memory X} {source target : String} {a : α}
    {results : List Element} (h : m.Replaces source [Carrier.element a] target results m') :
    m.holds source (Carrier.kind α) 1 = true := by
  rw [← LawfulCarrier.kind_element a]
  exact h.holds_source List.mem_cons_self

theorem holds_of_replaces_by_one {m m' : Memory X} {source target : String} {a : α}
    {operands : List Element} (h : m.Replaces source operands target [Carrier.element a] m') :
    m.holds target (Carrier.kind α) 0 = true := by
  rw [← LawfulCarrier.kind_element a]
  exact h.holds_target List.mem_cons_self

theorem typed?_of_not_holds {m : Memory X} {name : String}
    (h : m.holds name (Carrier.kind α) 0 = false) : m.typed? α name = none := by
  rw [Option.eq_none_iff_forall_ne_some]
  intro s hs
  exact absurd (holds_eq_false_iff.mp h s hs) (Nat.not_lt_zero _)

theorem exists_pop?_of_holds {m : Memory X} {name : String}
    (h : m.holds name (Carrier.kind α) 1 = true) :
    ∃ (a : α) (rest : Stack α), m.typed? α name = some (rest.pushAll [a]) ∧
      (m.typed? α name).bind Stack.pop? = some (a, rest) := by
  obtain ⟨s, hs, hn⟩ := holds_kind_iff.mp h
  obtain ⟨a, rest, rfl⟩ := Stack.exists_pushAll_one hn
  exact ⟨a, rest, hs, by rw [hs]; rfl⟩

theorem bind_pop?_of_not_holds {m : Memory X} {name : String}
    (h : m.holds name (Carrier.kind α) 1 = false) :
    (m.typed? α name).bind Stack.pop? = none := by
  rw [Option.bind_eq_none_iff]
  intro s hs
  exact Stack.pop?_eq_none_iff.mpr (holds_eq_false_iff.mp h s hs)

theorem exists_popPair?_of_holds {m : Memory X} {name : String}
    (h : m.holds name (Carrier.kind α) 2 = true) :
    ∃ (a b : α) (rest : Stack α), m.typed? α name = some (rest.pushAll [a, b]) ∧
      (m.typed? α name).bind Stack.popPair? = some (a, b, rest) := by
  obtain ⟨s, hs, hn⟩ := holds_kind_iff.mp h
  obtain ⟨a, b, rest, rfl⟩ := Stack.exists_pushAll_two hn
  exact ⟨a, b, rest, hs, by rw [hs]; rfl⟩

theorem bind_popPair?_of_not_holds {m : Memory X} {name : String}
    (h : m.holds name (Carrier.kind α) 2 = false) :
    (m.typed? α name).bind Stack.popPair? = none := by
  rw [Option.bind_eq_none_iff]
  intro s hs
  exact Stack.popPair?_eq_none_iff.mpr (holds_eq_false_iff.mp h s hs)

theorem unary_atomic (f : α → α) (target : String) (m : Memory X) :
    Atomic (m.holds target (Carrier.kind α) 1) (m.Converts f target target) m
      (m.unary f target) := by
  refine ⟨⟨fun ⟨a, h⟩ => holds_of_replaces_one h, fun h => ?_⟩, fun h => ?_⟩
  · obtain ⟨a, rest, hs, hp⟩ := exists_pop?_of_holds h
    unfold unary
    rw [hp]
    exact ⟨a, replaces_put [a] [f a] hs⟩
  · unfold unary
    rw [bind_pop?_of_not_holds h]

theorem binary_atomic (f : α → α → α) (target : String) (m : Memory X) :
    Atomic (m.holds target (Carrier.kind α) 2) (m.Combines f target target) m
      (m.binary f target) := by
  refine ⟨⟨fun ⟨a, b, h⟩ => holds_of_replaces_pair h, fun h => ?_⟩, fun h => ?_⟩
  · obtain ⟨a, b, rest, hs, hp⟩ := exists_popPair?_of_holds h
    unfold binary binaryIf
    rw [hp]
    exact ⟨a, b, replaces_put [a, b] [f a b] hs⟩
  · unfold binary binaryIf
    rw [bind_popPair?_of_not_holds h]

/-- A division also looks at its divisor before it takes anything. -/
theorem division_atomic {admits : α → Bool} (ha : ∀ b, admits b = !(Carrier.element b).isZero)
    (f : α → α → α) (target : String) (m : Memory X) :
    Atomic (m.holds target (Carrier.kind α) 2 && (m.top? target).all (!·.isZero))
      (m.Divides f target) m (m.binaryIf admits f target) := by
  refine ⟨⟨?_, fun h => ?_⟩, fun h => ?_⟩
  · rintro ⟨a, b, hb, h⟩
    have htop : m.top? target = some (Carrier.element b) :=
      Replaces.top?_source [Carrier.element a] h
    rw [holds_of_replaces_pair h, htop, Option.all_some, hb]
    rfl
  · obtain ⟨hholds, htop⟩ := Bool.and_eq_true_iff.mp h
    obtain ⟨a, b, rest, hs, hp⟩ := exists_popPair?_of_holds hholds
    rw [top?_of_typed? hs] at htop
    have hb : (!(Carrier.element b).isZero) = true := htop
    unfold binaryIf
    simp only [hp, ha, hb, if_true]
    exact ⟨a, b, by simpa using hb, replaces_put [a, b] [f a b] hs⟩
  · unfold binaryIf
    cases hholds : m.holds target (Carrier.kind α) 2 with
    | false => rw [bind_popPair?_of_not_holds hholds]
    | true =>
      obtain ⟨a, b, rest, hs, hp⟩ := exists_popPair?_of_holds hholds
      rw [hholds, top?_of_typed? hs, Bool.true_and] at h
      have hb : (!(Carrier.element b).isZero) = false := h
      simp [hp, ha, hb]

/-- A comparison needs the stack of its outcome before it takes the operands. -/
theorem compare_atomic (hk : Carrier.kind α ≠ .boolean) (f : α → α → Bool) (target : String)
    (m : Memory X) :
    Atomic (m.holds target (Carrier.kind α) 2 && m.holds (home Bool) .boolean 0)
      (m.Combines f target (home Bool)) m (m.compare f target) := by
  refine ⟨⟨?_, fun h => ?_⟩, fun h => ?_⟩
  · rintro ⟨a, b, h⟩
    exact Bool.and_eq_true_iff.mpr ⟨holds_of_replaces_pair h, holds_of_replaces_by_one h⟩
  · obtain ⟨hholds, hbool⟩ := Bool.and_eq_true_iff.mp h
    obtain ⟨a, b, rest, hs, hp⟩ := exists_popPair?_of_holds hholds
    obtain ⟨outcomes, ho, -⟩ := (holds_kind_iff (α := Bool)).mp hbool
    unfold compare
    simp only [ho, hp]
    -- The kinds differ, so the operands were not taken from the stack of the outcome.
    exact ⟨a, b, replaces_put_put [a, b] [f a b] hs (typed?_put_of_kind_ne rest hk hs ho)⟩
  · unfold compare
    rcases Bool.and_eq_false_iff.mp h with h | h
    · rw [bind_popPair?_of_not_holds h]
      cases m.typed? Bool (home Bool) <;> rfl
    · rw [typed?_of_not_holds (α := Bool) h]

/-- A conversion needs a target of its kind before it takes the operand. -/
theorem convert_atomic (hk : Carrier.kind β ≠ Carrier.kind α) (f : β → α) (target : String)
    (m : Memory X) :
    Atomic (m.holds target (Carrier.kind α) 0 && m.holds (home β) (Carrier.kind β) 1)
      (m.Converts f (home β) target) m (m.convert f target) := by
  refine ⟨⟨?_, fun h => ?_⟩, fun h => ?_⟩
  · rintro ⟨b, h⟩
    exact Bool.and_eq_true_iff.mpr ⟨holds_of_replaces_by_one h, holds_of_replaces_one h⟩
  · obtain ⟨htarget, hholds⟩ := Bool.and_eq_true_iff.mp h
    obtain ⟨b, rest, hs, hp⟩ := exists_pop?_of_holds hholds
    obtain ⟨s, ht, -⟩ := holds_kind_iff.mp htarget
    unfold convert
    simp only [ht, hp]
    exact ⟨b, replaces_put_put [b] [f b] hs (typed?_put_of_kind_ne rest hk hs ht)⟩
  · unfold convert
    rcases Bool.and_eq_false_iff.mp h with h | h
    · rw [typed?_of_not_holds h]
    · rw [bind_pop?_of_not_holds h]
      cases m.typed? α target <;> rfl

theorem deliver_atomic (a : α) (target : String) (m : Memory X) :
    Atomic (m.holds target (Carrier.kind α) 0) (m.Replaces target [] target [Carrier.element a]) m
      (m.deliver a target) := by
  refine ⟨⟨holds_of_replaces_by_one, fun h => ?_⟩, fun h => ?_⟩
  · obtain ⟨s, hs, -⟩ := holds_kind_iff.mp h
    unfold deliver
    rw [hs]
    exact replaces_put [] [a] hs
  · unfold deliver
    rw [typed?_of_not_holds h]

end

theorem measure_atomic {m : Memory X} {target : String} {t : TypedStack X}
    (ht : m.get? target = some t) :
    Atomic (m.holds (home Int64) .integer 0)
      (m.Replaces (home Int64) [] (home Int64) [.integer (Int64.ofNat (m.size target))]) m
      (m.measure target) := by
  have h := deliver_atomic (Int64.ofNat t.contents.size) (home Int64) m
  rw [size_eq ht]
  have heq : m.measure target = m.deliver (Int64.ofNat t.contents.size) (home Int64) := by
    unfold measure deliver
    rw [ht]
    cases m.typed? Int64 (home Int64) <;> rfl
  rw [heq]
  exact h

/-- The elements of a stack give way to nothing. -/
theorem flush_atomic {m : Memory X} {target : String} {t : TypedStack X}
    (ht : m.get? target = some t) :
    Atomic true (m.Replaces target t.contents.elements target []) m
      (m.rearrange Contents.flush target) := by
  obtain ⟨α, _, _, s, hs, -, hput⟩ := exists_rearrange_eq_put ht fun _ s => s.flush
  obtain ⟨u, hu, hc⟩ := typed?_eq_some_iff.mp hs
  cases ht.symm.trans hu
  have hfires : m.Replaces target t.contents.elements target []
      (m.rearrange Contents.flush target) := by
    rw [← Stack.pushAll_bottomUp s] at hs
    rw [hc, LawfulCarrier.elements_wrap]
    exact hput ▸ replaces_put s.bottomUp [] hs
  exact ⟨iff_of_true hfires rfl, fun h => by cases h⟩

theorem rearrangeAt_atomic {m : Memory X} {target : String} {t : TypedStack X}
    {f : Contents → Int64 → Contents} {move : Int64 → Memory X → Memory X → Prop}
    (ht : m.get? target = some t)
    (hmove : ∀ (m : Memory X) (t : TypedStack X), m.get? target = some t → ∀ index,
      move index m (m.rearrange (f · index) target)) :
    Atomic (m.holds (home Int64) .integer 1) (MovedAt move m) m (m.rearrangeAt f target) := by
  have hc : m.contains target = true := by
    unfold NameMap.contains
    rw [ht]
    rfl
  refine ⟨⟨?_, fun h => ?_⟩, fun h => ?_⟩
  · rintro ⟨index, rest, h, -⟩
    exact h.holds_source List.mem_cons_self
  · obtain ⟨index, rest, hs, hp⟩ := exists_pop?_of_holds (α := Int64) h
    obtain ⟨u, hu⟩ : ∃ u, (m.put (home Int64) rest).get? target = some u := by
      unfold put
      rw [NameMap.get?_modify, ht]
      split <;> exact ⟨_, rfl⟩
    unfold rearrangeAt
    simp only [hc, if_true, hp]
    exact ⟨index, m.put (home Int64) rest, replaces_put [index] [] hs, hmove _ u hu index⟩
  · unfold rearrangeAt
    simp only [hc, if_true, bind_pop?_of_not_holds (α := Int64) h]

end Memory
end StackMachine
