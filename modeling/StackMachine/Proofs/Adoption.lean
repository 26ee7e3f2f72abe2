import StackMachine.Proofs.Seeding

/-! What a seed leaves on every stack, and the warnings that it gives. What a stack adopts depends on
its kind alone, and a seed changes no kind, so every entry of a snapshot can be judged by the machine
that was there at first. -/
namespace StackMachine

/-- The warnings among the messages of a result. -/
def Logged.warnings {α : Type} (x : Logged α) : List Message :=
  x.messages.filter (·.severity = .warn)

namespace Kind

/-- Elements of a kind are adopted as they are, integers are adopted as floats, and nothing else is
adopted. -/
theorem adopt?_eq_some_iff {k : Kind} {e d : Element} :
    k.adopt? e = some d ↔ (e.kind = k ∧ d = e) ∨
      ∃ n, k = .float ∧ e = .integer n ∧ d = .float (Arithmetic.floatOfInteger n) := by
  cases k <;> cases e <;> simp [adopt?, Element.kind, eq_comm]

end Kind

namespace TypedStack
variable {X : Type}

theorem elements_seed (t : TypedStack X) (elements : List Element) :
    (t.seed elements).1.contents.elements =
      t.contents.elements ++ elements.filterMap t.kind.adopt? := by
  rw [seed_eq]
  refine Contents.elements_foldl_push fun e he => ?_
  obtain ⟨d, -, hd⟩ := List.mem_filterMap.mp he
  exact Kind.kind_of_adopt? hd

end TypedStack

namespace Machine
variable {X : Type}
open Memory

/-- The kind of the stack of a name. -/
def kind? (m : Machine X) (name : String) : Option Kind := (m.memory.get? name).map (·.kind)

/-- The warning that an entry of a snapshot calls for: the machine has no stack of its name, or the
stack does not adopt all of its elements. -/
def seedWarning? (m : Machine X) (entry : String × List Element) : Option Message :=
  match m.kind? entry.1 with
  | none => some ⟨.warn, "Seed names unknown stack '" ++ entry.1 ++ "', skipping"⟩
  | some kind =>
    match entry.2.countP fun e => kind.adopt? e = none with
    | 0 => none
    | rejected + 1 => some ⟨.warn, "Seed skipped " ++ toString (rejected + 1)
        ++ " element(s) not of kind " ++ kind.name ++ " on stack '" ++ entry.1 ++ "'"⟩

theorem kind?_eq_of_layout {m m' : Machine X} (h : m'.memory.layout = m.memory.layout)
    (name : String) : m'.kind? name = m.kind? name := by
  have hname := congrArg (·.get? name) h
  simp only [get?_layout] at hname
  have hkind := congrArg (Option.map Prod.fst) hname
  rw [Option.map_map, Option.map_map] at hkind
  exact hkind

theorem severity_of_seedWarning? {m : Machine X} {entry : String × List Element} {w : Message}
    (h : m.seedWarning? entry = some w) : w.severity = .warn := by
  unfold seedWarning? at h
  split at h
  · cases h
    rfl
  · split at h
    · cases h
    · cases h
      rfl

theorem messages_seedStack (m : Machine X) (entry : String × List Element) :
    (m.seedStack entry).messages = (m.seedWarning? entry).toList := by
  unfold seedStack seedWarning? kind?
  cases ht : m.memory.get? entry.1 with
  | none => rfl
  | some t =>
    have hcount : (t.seed entry.2).2 = entry.2.countP fun e => t.kind.adopt? e = none := by
      rw [TypedStack.seed_eq]
      refine List.countP_congr fun e _ => ?_
      simp
    change (rejectedElements (t.seed entry.2).2 t.kind entry.1).messages ++ [] = _
    simp only [Option.map_some, List.append_nil, hcount]
    cases hr : entry.2.countP fun e => t.kind.adopt? e = none with
    | zero => rfl
    | succ rejected => rfl

/-- Entries are judged by the kinds of the stacks, which the entries before them leave alone. -/
theorem messages_foldlM_seedStack (entries : List (String × List Element)) (m : Machine X) :
    (entries.foldlM seedStack m).messages = entries.filterMap m.seedWarning? := by
  induction entries generalizing m with
  | nil => rfl
  | cons entry entries ih =>
    have hsame : (m.seedStack entry).value.seedWarning? = m.seedWarning? := by
      funext e
      unfold seedWarning?
      rw [kind?_eq_of_layout (m.layout_seedStack entry)]
    have hmessages : ((entry :: entries).foldlM seedStack m).messages =
        (m.seedStack entry).messages ++
          (entries.foldlM seedStack (m.seedStack entry).value).messages := rfl
    rw [hmessages, ih, hsame, messages_seedStack]
    cases hw : m.seedWarning? entry with
    | none => rw [List.filterMap_cons_none hw]; rfl
    | some w => rw [List.filterMap_cons_some hw]; rfl

theorem warnings_seed (m : Machine X) (state : Snapshot) :
    (m.seed state).warnings = state.entries.filterMap m.seedWarning? := by
  have hmessages : (m.seed state).messages = (state.entries.foldlM seedStack m).messages ++
      [⟨.debug, "Seeded " ++ toString (state.names.countP m.memory.contains) ++ " stack(s)"⟩] := rfl
  have hwarn : (state.entries.filterMap m.seedWarning?).filter (·.severity = .warn) =
      state.entries.filterMap m.seedWarning? := by
    rw [List.filter_eq_self]
    intro w hw
    obtain ⟨entry, -, hentry⟩ := List.mem_filterMap.mp hw
    simpa using severity_of_seedWarning? hentry
  unfold Logged.warnings
  rw [hmessages, messages_foldlM_seedStack, List.filter_append, hwarn]
  simp

theorem elements?_seed (m : Machine X) (state : Snapshot) (name : String) :
    (m.seed state).value.elements? name = (m.memory.get? name).map fun t =>
      t.contents.elements ++ ((state.get? name).getD []).filterMap t.kind.adopt? := by
  unfold elements?
  rw [value_seed_eq]
  simp only [NameMap.get?_mapEntries, Option.map_map]
  congr 1
  funext t
  exact t.elements_seed _

theorem get?_snapshot (m : Machine X) (name : String) : m.snapshot.get? name = m.elements? name :=
  NameMap.get?_mapEntries _ m.memory name

theorem IsBlank.elements_eq_nil {m : Machine X} (h : m.IsBlank) {name : String} {t : TypedStack X}
    (ht : m.memory.get? name = some t) : t.contents.elements = [] := by
  rw [h name t ht]
  cases t.kind <;> rfl

/-- The stack that an entry of a snapshot was taken of has the kind of all its elements. -/
theorem exists_kind_of_mem_snapshot {m : Machine X} {entry : String × List Element}
    (h : entry ∈ m.snapshot.entries) :
    ∃ kind, m.kind? entry.1 = some kind ∧ ∀ e ∈ entry.2, e.kind = kind := by
  have hget : m.elements? entry.1 = some entry.2 := by
    rw [← get?_snapshot]
    exact NameMap.get?_eq_some_iff.mpr h
  obtain ⟨t, ht, helements⟩ := Option.map_eq_some_iff.mp hget
  refine ⟨t.kind, by rw [kind?, ht]; rfl, fun e he => ?_⟩
  rw [← helements] at he
  exact Contents.kind_of_mem_elements he

/-- A snapshot calls for no warning where the stacks have the kinds of those it was taken of. -/
theorem seedWarning?_of_mem_snapshot {fresh m : Machine X} (hkind : fresh.kind? = m.kind?)
    {entry : String × List Element} (h : entry ∈ m.snapshot.entries) :
    fresh.seedWarning? entry = none := by
  obtain ⟨kind, hk, hall⟩ := exists_kind_of_mem_snapshot h
  have hcount : (entry.2.countP fun e => kind.adopt? e = none) = 0 := by
    rw [List.countP_eq_zero]
    intro e he
    simp [Kind.adopt?_of_kind (hall e he)]
  unfold seedWarning?
  simp only [hkind, hk, hcount]

theorem snapshot_seed_snapshot {fresh m : Machine X} (hblank : fresh.IsBlank)
    (hkind : fresh.kind? = m.kind?) : (fresh.seed m.snapshot).value.snapshot = m.snapshot := by
  refine NameMap.ext_get? fun name => ?_
  have hname := congrFun hkind name
  rw [get?_snapshot, elements?_seed, get?_snapshot]
  unfold elements?
  unfold kind? at hname
  cases ht : fresh.memory.get? name with
  | none =>
    rw [ht, Option.map_none, eq_comm, Option.map_eq_none_iff] at hname
    rw [hname]
    rfl
  | some t =>
    rw [ht, Option.map_some, eq_comm] at hname
    obtain ⟨u, hu, huk⟩ := Option.map_eq_some_iff.mp hname
    have hall : u.contents.elements.filterMap t.kind.adopt? = u.contents.elements := by
      rw [← huk]
      exact Kind.filterMap_adopt? fun e he => Contents.kind_of_mem_elements he
    simp only [hu, Option.map_some, Option.getD_some, hblank.elements_eq_nil ht, List.nil_append,
      hall]

/-- A seed puts on every stack, above what it held, the elements of its entry that its kind adopts,
in their order, and changes nothing else. It warns once for each name without a stack and once for
each stack that does not adopt all, in the order of the names. So a snapshot fills empty stacks of
the same names and kinds, without a warning, with what it was taken of. -/
theorem seed_adopts (m : Machine X) (state : Snapshot) :
    let seeded := m.seed state
    (∀ name, seeded.value.elements? name = (m.memory.get? name).map fun t =>
      t.contents.elements ++ ((state.get? name).getD []).filterMap t.kind.adopt?) ∧
    (∀ (k : Kind) (e d : Element), k.adopt? e = some d ↔ (e.kind = k ∧ d = e) ∨
      ∃ n, k = .float ∧ e = .integer n ∧ d = .float (Arithmetic.floatOfInteger n)) ∧
    (∀ name, state.get? name = none → seeded.value.memory.get? name = m.memory.get? name) ∧
    seeded.value.memory.layout = m.memory.layout ∧ seeded.value.cursor = m.cursor ∧
    seeded.value.executed = m.executed ∧
    seeded.warnings = state.entries.filterMap m.seedWarning? ∧
    ∀ fresh : Machine X, fresh.IsBlank → fresh.kind? = m.kind? →
      (fresh.seed m.snapshot).warnings = [] ∧
        (fresh.seed m.snapshot).value.snapshot = m.snapshot := by
  refine ⟨m.elements?_seed state, fun _ _ _ => Kind.adopt?_eq_some_iff, fun name hname => ?_,
    m.layout_seed state, ?_, m.executed_seed state, m.warnings_seed state,
    fun fresh hblank hkind => ⟨?_, snapshot_seed_snapshot hblank hkind⟩⟩
  · rw [value_seed_eq, NameMap.get?_mapEntries, hname]
    exact Option.map_id_apply
  · rw [value_seed_eq]
  · rw [warnings_seed, List.filterMap_eq_nil_iff]
    exact fun entry he => seedWarning?_of_mem_snapshot hkind he

end Machine
end StackMachine
