import StackMachine.Memory

/-! Operands that give way to results. Two memories are compared through what they have in common:
the memory below the operands of the one and below the results of the other. -/
namespace StackMachine

namespace Contents

theorem kind_foldl_push (elements : List Element) (c : Contents) :
    (elements.foldl push c).kind = c.kind := by
  induction elements generalizing c with
  | nil => rfl
  | cons e elements ih => rw [List.foldl_cons, ih, kind_push]

theorem elements_foldl_push {elements : List Element} {c : Contents}
    (h : ∀ e ∈ elements, e.kind = c.kind) :
    (elements.foldl push c).elements = c.elements ++ elements := by
  induction elements generalizing c with
  | nil => simp
  | cons e elements ih =>
    have he : e.kind = c.kind := h e List.mem_cons_self
    have hrest : ∀ d ∈ elements, d.kind = (c.push e).kind := by
      intro d hd
      rw [kind_push]
      exact h d (List.mem_cons_of_mem _ hd)
    rw [List.foldl_cons, ih hrest, elements_push he, List.append_assoc]
    rfl

end Contents

namespace Memory
variable {X : Type}

/-- Whether a stack exists and holds at least `n` elements, of whatever kind. -/
def has (m : Memory X) (name : String) (n : Nat) : Bool :=
  (m.get? name).any (·.contents.has n)

/-- Whether a stack exists, has a kind and holds at least `n` elements. -/
def holds (m : Memory X) (name : String) (kind : Kind) (n : Nat) : Bool :=
  (m.get? name).any fun t => t.kind = kind && t.contents.has n

/-- The number of elements of a stack. -/
def size (m : Memory X) (name : String) : Nat := (m.get? name).elim 0 (·.contents.size)

/-- The top of a stack. -/
def top? (m : Memory X) (name : String) : Option Element :=
  (m.get? name).bind (·.contents.peek?)

/-- Pushes elements on a stack, the first of them first. -/
def pushAll (m : Memory X) (name : String) (elements : List Element) : Memory X :=
  m.modify name (·.pushAll elements)

/-- A stack exists and has the kind of every one of the elements. -/
def Takes (m : Memory X) (name : String) (elements : List Element) : Prop :=
  ∃ t, m.get? name = some t ∧ ∀ e ∈ elements, e.kind = t.kind

/-- Operands on top of one stack have given way to results on top of another, or of the same. What
was below the operands, all other stacks, and every kind and table are the same as before. -/
def Replaces (m : Memory X) (source : String) (operands : List Element) (target : String)
    (results : List Element) (m' : Memory X) : Prop :=
  ∃ rest : Memory X, rest.Takes source operands ∧ rest.Takes target results ∧
    m = rest.pushAll source operands ∧ m' = rest.pushAll target results

theorem holds_eq_true_iff {m : Memory X} {name : String} {kind : Kind} {n : Nat} :
    m.holds name kind n = true ↔
      ∃ t, m.get? name = some t ∧ t.kind = kind ∧ n ≤ t.contents.size := by
  unfold holds
  cases m.get? name with
  | none => simp
  | some t => simp [Contents.has]

theorem has_eq_true_iff {m : Memory X} {name : String} {n : Nat} :
    m.has name n = true ↔ ∃ t, m.get? name = some t ∧ n ≤ t.contents.size := by
  unfold has
  cases m.get? name with
  | none => simp
  | some t => simp [Contents.has]

theorem size_eq {m : Memory X} {name : String} {t : TypedStack X} (h : m.get? name = some t) :
    m.size name = t.contents.size := by
  unfold size
  rw [h]
  rfl

theorem get?_pushAll (m : Memory X) (name other : String) (elements : List Element) :
    (m.pushAll name elements).get? other =
      if other = name then (m.get? other).map (·.pushAll elements) else m.get? other :=
  NameMap.get?_modify m name other _

/-- The operands stand on top of the stack from which they are taken. -/
theorem Replaces.source_elements {m m' : Memory X} {source target : String}
    {operands results : List Element} (h : m.Replaces source operands target results m') :
    ∃ t below, m.get? source = some t ∧ t.contents.elements = below ++ operands ∧
      ∀ e ∈ operands, e.kind = t.kind := by
  obtain ⟨rest, ⟨t, ht, hk⟩, -, rfl, -⟩ := h
  refine ⟨t.pushAll operands, t.contents.elements, ?_, Contents.elements_foldl_push hk, ?_⟩
  · rw [get?_pushAll, if_pos rfl, ht, Option.map_some]
  · intro e he
    rw [hk e he]
    exact (Contents.kind_foldl_push operands t.contents).symm

/-- The stack to which the results go has their kind from the start. -/
theorem Replaces.target_kind {m m' : Memory X} {source target : String}
    {operands results : List Element} (h : m.Replaces source operands target results m') :
    ∃ t, m.get? target = some t ∧ ∀ e ∈ results, e.kind = t.kind := by
  obtain ⟨rest, -, ⟨t, ht, hk⟩, rfl, -⟩ := h
  by_cases hn : target = source
  · refine ⟨t.pushAll operands, ?_, ?_⟩
    · rw [get?_pushAll, if_pos hn, ht, Option.map_some]
    · intro e he
      rw [hk e he]
      exact (Contents.kind_foldl_push operands t.contents).symm
  · exact ⟨t, by rw [get?_pushAll, if_neg hn, ht], hk⟩

theorem Replaces.has_source {m m' : Memory X} {source target : String}
    {operands results : List Element} (h : m.Replaces source operands target results m') :
    m.has source operands.length = true := by
  obtain ⟨t, below, ht, he, -⟩ := h.source_elements
  refine has_eq_true_iff.mpr ⟨t, ht, ?_⟩
  rw [← Contents.length_elements, he, List.length_append]
  exact Nat.le_add_left _ _

theorem Replaces.holds_source {m m' : Memory X} {source target : String} {e : Element}
    {operands results : List Element} (h : m.Replaces source operands target results m')
    (he : e ∈ operands) : m.holds source e.kind operands.length = true := by
  obtain ⟨t, below, ht, heq, hk⟩ := h.source_elements
  refine holds_eq_true_iff.mpr ⟨t, ht, (hk e he).symm, ?_⟩
  rw [← Contents.length_elements, heq, List.length_append]
  exact Nat.le_add_left _ _

theorem Replaces.holds_target {m m' : Memory X} {source target : String} {e : Element}
    {operands results : List Element} (h : m.Replaces source operands target results m')
    (he : e ∈ results) : m.holds target e.kind 0 = true := by
  obtain ⟨t, ht, hk⟩ := h.target_kind
  exact holds_eq_true_iff.mpr ⟨t, ht, (hk e he).symm, Nat.zero_le _⟩

theorem Replaces.top?_source {m m' : Memory X} {source target : String} {e : Element}
    (operands : List Element) {results : List Element}
    (h : m.Replaces source (operands ++ [e]) target results m') : m.top? source = some e := by
  obtain ⟨t, below, ht, he, -⟩ := h.source_elements
  unfold top?
  rw [ht, Option.bind_some, Contents.peek?_eq_getLast?, he, ← List.append_assoc,
    List.getLast?_concat]

/-! Stacks of a carrier. -/
section
variable {α β : Type} [Carrier α] [Carrier β]

theorem put_put (m : Memory X) (name : String) (s : Stack α) (s' : Stack β) :
    (m.put name s).put name s' = m.put name s' := NameMap.modify_modify m name _ _

theorem get?_put_self {m : Memory X} {name : String} {t : TypedStack X} (s : Stack α)
    (h : m.get? name = some t) :
    (m.put name s).get? name = some { t with contents := Carrier.wrap s } := by
  unfold put
  rw [NameMap.get?_modify, if_pos rfl, h, Option.map_some]

variable [LawfulCarrier α] [LawfulCarrier β]

theorem typed?_eq_some_iff {m : Memory X} {name : String} {s : Stack α} :
    m.typed? α name = some s ↔ ∃ t, m.get? name = some t ∧ t.contents = Carrier.wrap s := by
  unfold typed?
  simp only [Option.bind_eq_some_iff, LawfulCarrier.unwrap?_eq_some_iff]

/-- A stack holds elements of a carrier's kind if it can be read as one of the carrier. -/
theorem holds_kind_iff {m : Memory X} {name : String} {n : Nat} :
    m.holds name (Carrier.kind α) n = true ↔
      ∃ s : Stack α, m.typed? α name = some s ∧ n ≤ s.size := by
  rw [holds_eq_true_iff]
  constructor
  · rintro ⟨t, ht, hk, hn⟩
    obtain ⟨s, hs⟩ := LawfulCarrier.exists_wrap (α := α) t.contents hk
    rw [hs, LawfulCarrier.size_wrap] at hn
    exact ⟨s, typed?_eq_some_iff.mpr ⟨t, ht, hs⟩, hn⟩
  · rintro ⟨s, hs, hn⟩
    obtain ⟨t, ht, hc⟩ := typed?_eq_some_iff.mp hs
    refine ⟨t, ht, ?_, ?_⟩
    · rw [TypedStack.kind, hc, LawfulCarrier.kind_wrap]
    · rw [hc, LawfulCarrier.size_wrap]
      exact hn

theorem holds_eq_false_iff {m : Memory X} {name : String} {n : Nat} :
    m.holds name (Carrier.kind α) n = false ↔
      ∀ s : Stack α, m.typed? α name = some s → s.size < n := by
  rw [← Bool.not_eq_true, holds_kind_iff (α := α)]
  simp only [not_exists, not_and, Nat.not_le]

theorem top?_of_typed? {m : Memory X} {name : String} {s : Stack α}
    (h : m.typed? α name = some s) : m.top? name = s.peek?.map Carrier.element := by
  obtain ⟨t, ht, hc⟩ := typed?_eq_some_iff.mp h
  unfold top?
  rw [ht, Option.bind_some, hc, LawfulCarrier.peek?_wrap]

theorem put_eq_self {m : Memory X} {name : String} {s : Stack α}
    (h : m.typed? α name = some s) : m.put name s = m := by
  obtain ⟨t, ht, hc⟩ := typed?_eq_some_iff.mp h
  refine NameMap.modify_eq_self fun v hv => ?_
  cases ht.symm.trans hv
  rw [← hc]

theorem pushAll_put (m : Memory X) (name : String) (s : Stack α) (elements : List α) :
    (m.put name s).pushAll name (elements.map Carrier.element) =
      m.put name (s.pushAll elements) := by
  unfold put pushAll
  rw [NameMap.modify_modify]
  refine NameMap.modify_congr fun t _ => ?_
  rw [← Contents.foldl_push_wrap]
  rfl

theorem typed?_put_self {m : Memory X} {name : String} {s : Stack α} (s' : Stack α)
    (h : m.typed? α name = some s) : (m.put name s').typed? α name = some s' := by
  obtain ⟨t, ht, -⟩ := typed?_eq_some_iff.mp h
  exact typed?_eq_some_iff.mpr ⟨_, get?_put_self s' ht, rfl⟩

/-- New values of one kind leave the stacks of another kind as they are. -/
theorem typed?_put_of_kind_ne {m : Memory X} {name other : String} {s : Stack α} {r : Stack β}
    (s' : Stack α) (hk : Carrier.kind α ≠ Carrier.kind β) (h : m.typed? α name = some s)
    (hr : m.typed? β other = some r) : (m.put name s').typed? β other = some r := by
  obtain ⟨t, ht, hc⟩ := typed?_eq_some_iff.mp h
  obtain ⟨u, hu, hd⟩ := typed?_eq_some_iff.mp hr
  have hne : other ≠ name := by
    rintro rfl
    cases ht.symm.trans hu
    have hkinds := congrArg Contents.kind (hc.symm.trans hd)
    rw [LawfulCarrier.kind_wrap, LawfulCarrier.kind_wrap] at hkinds
    exact hk hkinds
  refine typed?_eq_some_iff.mpr ⟨u, ?_, hd⟩
  unfold put
  rw [NameMap.get?_modify, if_neg hne, hu]

theorem takes_of_typed? {m : Memory X} {name : String} {s : Stack α} (elements : List α)
    (h : m.typed? α name = some s) : m.Takes name (elements.map Carrier.element) := by
  obtain ⟨t, ht, hc⟩ := typed?_eq_some_iff.mp h
  refine ⟨t, ht, fun e he => ?_⟩
  obtain ⟨a, -, rfl⟩ := List.mem_map.mp he
  rw [LawfulCarrier.kind_element, TypedStack.kind, hc, LawfulCarrier.kind_wrap]

/-- Operands taken from one stack are replaced by results pushed on another. -/
theorem replaces_put_put {m : Memory X} {source target : String} {below : Stack α} {s : Stack β}
    (operands : List α) (results : List β)
    (hm : m.typed? α source = some (below.pushAll operands))
    (hs : (m.put source below).typed? β target = some s) :
    m.Replaces source (operands.map Carrier.element) target (results.map Carrier.element)
      ((m.put source below).put target (s.pushAll results)) := by
  refine ⟨m.put source below, ?_, takes_of_typed? results hs, ?_, ?_⟩
  · exact takes_of_typed? operands (typed?_put_self below hm)
  · rw [pushAll_put, put_eq_self hm]
  · rw [← pushAll_put, put_eq_self hs]

/-- The same on one stack. -/
theorem replaces_put {m : Memory X} {name : String} {below : Stack α} (operands results : List α)
    (hm : m.typed? α name = some (below.pushAll operands)) :
    m.Replaces name (operands.map Carrier.element) name (results.map Carrier.element)
      (m.put name (below.pushAll results)) := by
  rw [← put_put m name below]
  exact replaces_put_put operands results hm (typed?_put_self below hm)

end
end Memory
end StackMachine
