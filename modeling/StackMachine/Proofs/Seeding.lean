import StackMachine.Proofs.Layout

/-! What a seed leaves on the stacks, and how a snapshot brings back the stacks it was taken of. -/
namespace StackMachine

namespace NameMap
variable {α β : Type}

/-- Changes made one after the other, at most one for each name, are one change of every value. -/
theorem foldl_modify (m : NameMap α) (changes : NameMap β) (f : β → α → α) :
    changes.entries.foldl (fun m e => m.modify e.1 (f e.2)) m =
      m.mapEntries fun name v => (changes.get? name).elim v (f · v) := by
  obtain ⟨entries, hentries⟩ := changes
  refine ext_get? fun name => ?_
  rw [get?_mapEntries]
  simp only [get?]
  change (entries.foldl _ m).get? name = (m.get? name).map _
  induction entries generalizing m with
  | nil => simp
  | cons e rest ih =>
    obtain ⟨hlt, hrest⟩ := List.pairwise_cons.mp hentries
    rw [List.foldl_cons, ih (m.modify e.1 (f e.2)) hrest, get?_modify]
    by_cases he : name = e.1
    · subst he
      have hnone : rest.find? (·.1 = e.1) = none := by
        rw [List.find?_eq_none]
        intro d hd
        have hne : d.1 ≠ e.1 := fun h => String.lt_irrefl _ (h ▸ hlt d hd)
        simpa using hne
      simp [hnone, Function.comp_def]
    · have hne : ¬e.1 = name := fun h => he h.symm
      simp [he, hne]

end NameMap

namespace Kind

theorem adopt?_of_kind {k : Kind} {e : Element} (h : e.kind = k) : k.adopt? e = some e := by
  cases k <;> cases e <;> cases h <;> rfl

theorem filterMap_adopt? {k : Kind} {elements : List Element} (h : ∀ e ∈ elements, e.kind = k) :
    elements.filterMap k.adopt? = elements := by
  induction elements with
  | nil => rfl
  | cons e elements ih =>
    rw [List.filterMap_cons_some (adopt?_of_kind (h e List.mem_cons_self)),
      ih fun d hd => h d (List.mem_cons_of_mem _ hd)]

theorem kind_of_adopt? {k : Kind} {e d : Element} (h : k.adopt? e = some d) : d.kind = k := by
  cases k <;> cases e <;> cases h <;> rfl

end Kind

namespace Contents

theorem push?_of_kind {c : Contents} {e : Element} (h : e.kind = c.kind) :
    c.push? e = some (c.push e) := by
  cases c <;> cases e <;> cases h <;> rfl

theorem kind_of_mem_elements {c : Contents} {e : Element} (h : e ∈ c.elements) :
    e.kind = c.kind := by
  obtain ⟨α, _, _, s, rfl⟩ := c.exists_carrier
  rw [LawfulCarrier.elements_wrap] at h
  obtain ⟨a, -, rfl⟩ := List.mem_map.mp h
  rw [LawfulCarrier.kind_element, LawfulCarrier.kind_wrap]

/-- The elements of some contents, pushed from the bottom up, make up the contents. -/
theorem foldl_push_elements (c : Contents) : c.elements.foldl push (empty c.kind) = c := by
  have hempty {α : Type} [Carrier α] [LawfulCarrier α] :
      empty (Carrier.kind α) = Carrier.wrap (Stack.empty : Stack α) := by
    obtain ⟨s, hs⟩ := LawfulCarrier.exists_wrap (α := α) (empty (Carrier.kind α))
      (by cases Carrier.kind α <;> rfl)
    have hsize : s.size = 0 := by
      rw [← LawfulCarrier.size_wrap, ← hs]
      cases Carrier.kind α <;> rfl
    have hnil : s = Stack.empty := Stack.ext_topDown (List.length_eq_zero_iff.mp hsize)
    rw [hs, hnil]
  obtain ⟨α, _, _, s, rfl⟩ := c.exists_carrier
  rw [LawfulCarrier.elements_wrap, LawfulCarrier.kind_wrap, hempty, foldl_push_wrap,
    Stack.pushAll_bottomUp]

end Contents

namespace TypedStack
variable {X : Type}

theorem adopt?_eq (t : TypedStack X) (e : Element) :
    t.adopt? e = (t.kind.adopt? e).map fun d => t.mapContents (·.push d) := by
  unfold adopt?
  cases h : t.kind.adopt? e with
  | none => rfl
  | some d =>
    have hd : d.kind = t.contents.kind := Kind.kind_of_adopt? h
    rw [Option.bind_some, Contents.push?_of_kind hd]
    rfl

/-- Pushes one element, or counts it among the rejected ones. -/
def seedStep (s : TypedStack X × Nat) (e : Element) : TypedStack X × Nat :=
  match s.1.adopt? e with
  | some t => (t, s.2)
  | none => (s.1, s.2 + 1)

theorem foldl_seedStep (elements : List Element) (t : TypedStack X) (rejected : Nat) :
    elements.foldl seedStep (t, rejected) =
      (t.pushAll (elements.filterMap t.kind.adopt?),
        rejected + elements.countP fun e => (t.kind.adopt? e).isNone) := by
  induction elements generalizing t rejected with
  | nil => rfl
  | cons e elements ih =>
    have ht := t.adopt?_eq e
    cases he : t.kind.adopt? e with
    | none =>
      rw [he, Option.map_none] at ht
      have hcount := List.countP_cons_of_pos (p := fun e => (t.kind.adopt? e).isNone)
        (l := elements) (a := e) (by rw [he]; rfl)
      simp only [List.foldl_cons, seedStep, ht, ih]
      rw [hcount, List.filterMap_cons_none he, Nat.add_right_comm, Nat.add_assoc]
    | some d =>
      rw [he, Option.map_some] at ht
      have hk : (t.mapContents (·.push d)).kind = t.kind := Contents.kind_push t.contents d
      simp only [List.foldl_cons, seedStep, ht, ih, hk]
      simp [he, pushAll, mapContents]

/-- The elements that the kind adopts are pushed in their order, and the others are counted. -/
theorem seed_eq (t : TypedStack X) (elements : List Element) :
    t.seed elements = (t.pushAll (elements.filterMap t.kind.adopt?),
      elements.countP fun e => (t.kind.adopt? e).isNone) := by
  have h := foldl_seedStep elements t 0
  rw [Nat.zero_add] at h
  exact h

end TypedStack

namespace Machine
variable {X : Type}

theorem value_seedStack (m : Machine X) (entry : String × List Element) :
    (m.seedStack entry).value =
      { m with memory := m.memory.modify entry.1 fun t => (t.seed entry.2).1 } := by
  unfold seedStack
  split
  · rename_i hnone
    have hm : m.memory.modify entry.1 (fun t => (t.seed entry.2).1) = m.memory := by
      refine NameMap.modify_eq_self fun t ht => ?_
      rw [hnone] at ht
      cases ht
    rw [hm]
    rfl
  · rename_i t ht
    have hm : m.memory.insert entry.1 (t.seed entry.2).1 =
        m.memory.modify entry.1 (fun t => (t.seed entry.2).1) := by
      refine NameMap.ext_get? fun other => ?_
      rw [NameMap.get?_insert, NameMap.get?_modify]
      by_cases h : entry.1 = other
      · subst h
        simp [ht]
      · simp [h, Ne.symm h]
    rw [← hm]
    rfl

/-- A seed changes every stack by its own entry alone. -/
theorem value_seed_eq (m : Machine X) (state : Snapshot) :
    (m.seed state).value = { m with
      memory := m.memory.mapEntries fun name t => (t.seed ((state.get? name).getD [])).1 } := by
  have hfold (entries : List (String × List Element)) (m : Machine X) :
      entries.foldl (fun m e => (m.seedStack e).value) m = { m with
        memory := entries.foldl (fun m e => m.modify e.1 fun t => (t.seed e.2).1) m.memory } := by
    induction entries generalizing m with
    | nil => rfl
    | cons e entries ih => rw [List.foldl_cons, ih, value_seedStack, List.foldl_cons]
  have hentry (name : String) (t : TypedStack X) :
      (state.get? name).elim t (fun elements => (t.seed elements).1) =
        (t.seed ((state.get? name).getD [])).1 := by
    cases state.get? name <;> rfl
  have hall := NameMap.foldl_modify m.memory state fun elements t => (t.seed elements).1
  simp only [hentry] at hall
  rw [value_seed, hfold, hall]

/-- A machine has no elements on any stack. -/
def IsBlank (m : Machine X) : Prop :=
  ∀ name t, m.memory.get? name = some t → t.contents = .empty t.kind

theorem isBlank_ofKinds (kinds : List Kind) : (ofKinds kinds : Machine X).IsBlank := by
  intro name t ht
  rcases NameMap.get?_insertAll_eq_some ht with hempty | hmem
  · cases hempty
  · obtain ⟨k, -, he⟩ := List.mem_map.mp hmem
    cases he
    cases k <;> rfl

/-- A snapshot brings a machine with no elements to the state of the machine it was taken of, if
both have the same stacks. -/
theorem memory_seed_snapshot {fresh m : Machine X} (hblank : fresh.IsBlank)
    (hlayout : fresh.memory.layout = m.memory.layout) :
    (fresh.seed m.snapshot).value.memory = m.memory := by
  rw [value_seed_eq]
  refine NameMap.ext_get? fun name => ?_
  rw [NameMap.get?_mapEntries]
  have hstack := congrArg (·.get? name) hlayout
  simp only [Memory.get?_layout] at hstack
  have hsnap : m.snapshot.get? name = (m.memory.get? name).map (·.contents.elements) :=
    NameMap.get?_mapEntries _ m.memory name
  rw [hsnap]
  cases ht : fresh.memory.get? name with
  | none =>
    cases hu : m.memory.get? name with
    | none => rfl
    | some u => simp [ht, hu] at hstack
  | some t =>
    cases hu : m.memory.get? name with
    | none => simp [ht, hu] at hstack
    | some u =>
      rw [ht, hu, Option.map_some, Option.map_some, Option.some_inj, Prod.mk.injEq] at hstack
      obtain ⟨hkind, hops⟩ := hstack
      have hall : u.contents.elements.filterMap t.kind.adopt? = u.contents.elements := by
        rw [hkind]
        exact Kind.filterMap_adopt? fun e he => Contents.kind_of_mem_elements he
      have hcontents : u.contents.elements.foldl Contents.push t.contents = u.contents := by
        rw [hblank name t ht, hkind]
        exact Contents.foldl_push_elements u.contents
      simp only [Option.map_some, Option.getD_some, TypedStack.seed_eq, hall]
      simp only [TypedStack.pushAll, TypedStack.mapContents, hcontents, hops]

end Machine
end StackMachine
