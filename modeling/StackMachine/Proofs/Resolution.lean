import StackMachine.Proofs.Layout

/-! An interpreter reads the words of a machine that it threw away, and runs them on others. The
calls it reads resolve there, since the layout of all these machines is that of the first. -/
namespace StackMachine

theorem Kind.name_injective {j k : Kind} (h : j.name = k.name) : j = k := by
  revert h
  cases j <;> cases k <;> decide

theorem Kind.nodup_names {kinds : List Kind} (h : kinds.Nodup) : (kinds.map Kind.name).Nodup :=
  List.Pairwise.map _ (fun _ _ hne he => hne (Kind.name_injective he)) h

namespace Machine
variable {X : Type}
open Memory

/-- One stack for each kind, named after it, of that kind, and with its standard operations. There
are no other stacks. -/
structure HasLayout (kinds : List Kind) (m : Machine X) : Prop where
  names_perm : m.memory.names.Perm (kinds.map Kind.name)
  stack_of_kind : ∀ k ∈ kinds, ∃ t, m.memory.get? k.name = some t ∧ t.kind = k ∧
    t.operations = .standard k

/-- Whether a stack exists that offers a function. -/
def answers (m : Machine X) (stack function : String) : Bool :=
  (m.memory.get? stack).any (·.operations.contains function)

theorem answers_eq_layout (m : Machine X) (stack function : String) :
    m.answers stack function = (m.memory.layout.get? stack).any (·.2.contains function) := by
  rw [get?_layout, Option.any_map]
  rfl

theorem answers_iff_mem {m : Machine X} {stack function : String} :
    m.answers stack function = true ↔
      ∃ t, (stack, t) ∈ m.memory.entries ∧ function ∈ t.operations.names := by
  simp only [answers, Option.any_eq_true, NameMap.get?_eq_some_iff, NameMap.contains_iff,
    NameMap.mem_names_iff]

/-- What a machine answers, it does by one of the operations that it has itself. -/
theorem exists_builtin_of_answers {m : Machine Empty} {stack function : String}
    (h : m.answers stack function = true) :
    ∃ op, (m.memory.get? stack).bind (·.operations.get? function) = some (.builtin op) := by
  obtain ⟨t, ht, hf⟩ := (Option.any_eq_true _ _).mp h
  obtain ⟨op, hop⟩ := NameMap.contains_iff.mp hf
  rw [ht, Option.bind_some, hop]
  cases op with
  | builtin op => exact ⟨op, rfl⟩
  | host op => exact nomatch op

theorem HasLayout.of_layout_eq {kinds : List Kind} {m m' : Machine X}
    (h : m'.memory.layout = m.memory.layout) (hm : m.HasLayout kinds) : m'.HasLayout kinds where
  names_perm := by
    have hn := congrArg NameMap.names h
    rw [layout, layout, NameMap.names_mapEntries, NameMap.names_mapEntries] at hn
    rw [hn]
    exact hm.names_perm
  stack_of_kind := by
    intro k hk
    obtain ⟨t, ht, hkind, hops⟩ := hm.stack_of_kind k hk
    have hget := congrArg (·.get? k.name) h
    simp only [get?_layout, ht, Option.map_some] at hget
    obtain ⟨t', ht', he⟩ := Option.map_eq_some_iff.mp hget
    obtain ⟨hk', ho'⟩ := Prod.mk.inj he
    exact ⟨t', ht', hk'.trans hkind, ho'.trans hops⟩

theorem get?_ofKinds {kinds : List Kind} (hn : kinds.Nodup) {k : Kind} (hk : k ∈ kinds) :
    (ofKinds kinds : Machine X).memory.get? k.name = some (.standard k) := by
  refine NameMap.get?_insertAll_of_mem ?_ (List.mem_map.mpr ⟨k, hk, rfl⟩)
  rw [List.map_map]
  exact Kind.nodup_names hn

theorem get?_ofKinds_of_not_mem {kinds : List Kind} {name : String}
    (h : name ∉ kinds.map Kind.name) : (ofKinds kinds : Machine X).memory.get? name = none := by
  refine (NameMap.get?_insertAll_of_not_mem ?_).trans (NameMap.get?_empty name)
  rw [List.map_map]
  exact h

theorem mem_names_ofKinds {kinds : List Kind} (hn : kinds.Nodup) {name : String} :
    name ∈ (ofKinds kinds : Machine X).memory.names ↔ name ∈ kinds.map Kind.name := by
  rw [NameMap.mem_names_iff]
  by_cases h : name ∈ kinds.map Kind.name
  · obtain ⟨k, hk, rfl⟩ := List.mem_map.mp h
    exact iff_of_true ⟨_, get?_ofKinds hn hk⟩ h
  · refine iff_of_false ?_ h
    rintro ⟨t, ht⟩
    rw [get?_ofKinds_of_not_mem h] at ht
    cases ht

theorem hasLayout_ofKinds {kinds : List Kind} (hn : kinds.Nodup) :
    (ofKinds kinds : Machine X).HasLayout kinds where
  names_perm := by
    rw [List.perm_ext_iff_of_nodup (NameMap.nodup_names _) (Kind.nodup_names hn)]
    intro name
    exact mem_names_ofKinds hn
  stack_of_kind k hk := by
    refine ⟨_, get?_ofKinds hn hk, ?_, rfl⟩
    cases k <;> rfl

end Machine

namespace Vocabulary
variable {X : Type}

/-- The registered calls are those that the machine answers, and the verbs. -/
theorem isRegistered_ofMachine (m : Machine X) {stack : String} (h : stack ≠ cursorName)
    (function : String) : (ofMachine m).isRegistered stack function = m.answers stack function := by
  rw [Bool.eq_iff_iff, Machine.answers_iff_mem]
  unfold ofMachine
  rw [isRegistered_of_history]
  simp only [List.mem_append, List.mem_flatMap, List.mem_map]
  constructor
  · rintro (⟨⟨name, t⟩, ht, f, hf, he⟩ | ⟨verb, -, he⟩)
    · cases he
      exact ⟨t, ht, hf⟩
    · exact absurd (Prod.mk.inj he).1.symm h
  · rintro ⟨t, ht, hf⟩
    exact .inl ⟨(stack, t), ht, function, hf, rfl⟩

/-- Only registered calls are read as calls, and verbs of the cursor never are. -/
theorem registered_of_command? {v : Vocabulary} {token stack function : String}
    (h : v.command? token = some (.call stack function)) :
    stack ≠ cursorName ∧ v.isRegistered stack function = true := by
  unfold command? at h
  split at h
  · cases h
  split at h
  · cases h
  split at h
  · cases h
  split at h
  · split at h
    · cases h
    · rename_i hs
      split at h
      · rename_i hr
        cases h
        exact ⟨hs, hr⟩
      · cases h
  · cases h

theorem registered_of_mem_instructions {v : Vocabulary} {tokens : List String} {i : Instruction}
    {stack function : String} (hi : i ∈ v.instructions tokens)
    (hc : i.command = .call stack function) :
    stack ≠ cursorName ∧ v.isRegistered stack function = true := by
  obtain ⟨token, -, ht⟩ := List.mem_filterMap.mp hi
  obtain ⟨command, hcommand, rfl⟩ := Option.map_eq_some_iff.mp ht
  cases hc
  exact registered_of_command? hcommand

end Vocabulary

namespace Interpreter
variable {σ : Type} [RandomSource σ]
open Machine

theorem layout_of_occurs {i : Interpreter σ} {program : Program} {state : Option Snapshot}
    {s : Machine Empty × σ} (hs : i.Occurs program state s) :
    s.1.memory.layout = (freshMachine i.options).memory.layout :=
  hs.invariant (layout_round i.fuse) (i.layout_start program state)

theorem program_of_occurs {i : Interpreter σ} {program : Program} {state : Option Snapshot}
    {s : Machine Empty × σ} (hs : i.Occurs program state s) : s.1.cursor.program = program :=
  (hs.invariant (InProgram.round i.fuse) (i.start_inProgram program state)).program_eq

/-- Throughout every execution the machine has the stacks that the options name and the program
that was loaded. The interpreter reads as calls exactly what the machine answers, so every call that
it reads resolves whenever it is executed. -/
theorem calls_resolve (options : Options) (source : σ) (program : Program)
    (state : Option Snapshot) {s : Machine Empty × σ}
    (hs : (ofSource options source).value.Occurs program state s) :
    let v := (ofSource options source).value.vocabulary
    s.1.HasLayout options.validate.value.kinds ∧ s.1.cursor.program = program ∧
    (∀ stack function, stack ≠ Vocabulary.cursorName →
      v.isRegistered stack function = s.1.answers stack function) ∧
    ∀ tokens, ∀ instruction ∈ v.instructions tokens, ∀ stack function,
      instruction.command = .call stack function →
      ∃ op, (s.1.memory.get? stack).bind (·.operations.get? function) = some (.builtin op) := by
  intro v
  have hlayout := layout_of_occurs hs
  have hregistered (stack function : String) (h : stack ≠ Vocabulary.cursorName) :
      v.isRegistered stack function = s.1.answers stack function := by
    rw [answers_eq_layout, hlayout, ← answers_eq_layout]
    exact Vocabulary.isRegistered_ofMachine _ h function
  refine ⟨?_, program_of_occurs hs, hregistered, ?_⟩
  · have hfresh := hasLayout_ofKinds (X := Empty) options.nodup_kinds_validate
    exact hfresh.of_layout_eq hlayout
  · intro tokens instruction hi stack function hc
    obtain ⟨hs, hr⟩ := Vocabulary.registered_of_mem_instructions hi hc
    rw [hregistered stack function hs] at hr
    exact exists_builtin_of_answers hr

/-- The resolution of a call at the end of a run on the one stack that options with a repetition
ask for. -/
theorem calls_resolve_at_end :
    let options : Options := { kinds := [.integer, .integer] }
    let source : Script := ⟨[], []⟩
    let i := (ofSource options source).value
    let program : Program := #[⟨.call "integer" "dup", "integer.dup", 0⟩]
    let s := i.result program none
    i.Occurs program none s ∧ s.1.HasLayout [.integer] ∧
    i.vocabulary.isRegistered "float" "+" = s.1.answers "float" "+" ∧
    ∃ op, (s.1.memory.get? "integer").bind (·.operations.get? "dup") = some (.builtin op) := by
  intro options source i program s
  have hs : i.Occurs program none s := .inr rfl
  obtain ⟨hlayout, -, hregistered, hcalls⟩ := calls_resolve options source program none hs
  rw [Options.kinds_validate] at hlayout
  refine ⟨hs, hlayout, hregistered _ _ (by decide), ?_⟩
  exact hcalls ["integer.dup"] ⟨.call "integer" "dup", "integer.dup", 0⟩ (by decide +kernel) _ _ rfl

end Interpreter
end StackMachine
