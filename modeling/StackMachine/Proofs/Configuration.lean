import StackMachine.Proofs.ByteOrder
import StackMachine.Proofs.Synthesis

/-! What an interpreter takes from its list of kinds. Only the set of kinds matters: the words of the
interpreter come in the order of their names, and its runs start from the same stacks. -/
namespace StackMachine

namespace Options

theorem mem_distinct {kinds : List Kind} {k : Kind} : k ∈ distinct kinds ↔ k ∈ kinds := by
  induction kinds with
  | nil => rfl
  | cons j kinds ih =>
    by_cases hk : k = j
    · simp [distinct_cons, hk]
    · simp [distinct_cons, hk, ih]

theorem mem_kinds_validate {o : Options} (h : o.kinds ≠ []) {k : Kind} :
    k ∈ o.validate.value.kinds ↔ k ∈ o.kinds := by
  have hempty : ¬o.kinds.isEmpty = true := by simpa using h
  rw [kinds_validate, mem_distinct, if_neg hempty]

theorem maxInstructions_validate (o : Options) :
    o.validate.value.maxInstructions = o.maxInstructions := by
  have hprobability (o : Options) :
      o.validateProbability.value.maxInstructions = o.maxInstructions := by
    unfold validateProbability
    split <;> rfl
  have hstacks (o : Options) : o.validateStacks.value.maxInstructions = o.maxInstructions := by
    unfold validateStacks
    split <;> rfl
  calc o.validate.value.maxInstructions
    _ = o.validateProbability.value.validateStacks.value.maxInstructions := rfl
    _ = o.maxInstructions := by rw [hstacks, hprobability]

end Options

/-- A machine depends on the set of its kinds only. -/
theorem Machine.ofKinds_congr {X : Type} {kinds kinds' : List Kind}
    (h : ∀ k, k ∈ kinds ↔ k ∈ kinds') : (ofKinds kinds : Machine X) = ofKinds kinds' := by
  have hmemory : (ofKinds kinds : Machine X).memory = (ofKinds kinds' : Machine X).memory := by
    refine NameMap.ext_get? fun name => ?_
    by_cases hname : ∃ k ∈ kinds, k.name = name
    · obtain ⟨k, hk, rfl⟩ := hname
      rw [get?_ofKinds_of_mem hk, get?_ofKinds_of_mem ((h k).mp hk)]
    · have hnone {kinds : List Kind} (hno : ¬∃ k ∈ kinds, k.name = name) :
          (ofKinds kinds : Machine X).memory.get? name = none := by
        apply get?_ofKinds_of_not_mem
        rw [List.mem_map]
        exact hno
      rw [hnone hname, hnone]
      rintro ⟨k, hk, hkname⟩
      exact hname ⟨k, (h k).mpr hk, hkname⟩
  exact congrArg (fun memory => ({ memory } : Machine X)) hmemory

namespace Vocabulary

/-- The order of calls: by the bytes of the stack, then by those of the function. -/
def Precedes (a b : String × String) : Prop :=
  Text.bytes a.1 < Text.bytes b.1 ∨ a.1 = b.1 ∧ Text.bytes a.2 < Text.bytes b.2

theorem Precedes.ne {a b : String × String} (h : Precedes a b) : a ≠ b := by
  rintro rfl
  rcases h with h | ⟨-, h⟩
  · exact List.lt_irrefl _ h
  · exact List.lt_irrefl _ h

section
variable {X : Type}

/-- The calls that a machine answers, stack by stack. -/
def answered (m : Machine X) : List (String × String) :=
  m.memory.entries.flatMap fun (name, t) => t.operations.names.map (name, ·)

def verbCalls : List (String × String) := Verb.all.map fun verb => (cursorName, verb.name)

theorem mem_answered {m : Machine X} {stack function : String} :
    (stack, function) ∈ answered m ↔ m.answers stack function = true := by
  rw [Machine.answers_iff_mem]
  simp only [answered, List.mem_flatMap, List.mem_map, Prod.mk.injEq]
  constructor
  · rintro ⟨⟨name, t⟩, ht, f, hf, rfl, rfl⟩
    exact ⟨t, ht, hf⟩
  · rintro ⟨t, ht, hf⟩
    exact ⟨(stack, t), ht, function, hf, rfl, rfl⟩

theorem answered_sorted (m : Machine X) : (answered m).Pairwise Precedes := by
  unfold answered
  rw [List.pairwise_flatMap]
  constructor
  · rintro ⟨name, t⟩ -
    have hnames : t.operations.names.Pairwise (· < ·) := by
      unfold NameMap.names
      rw [List.pairwise_map]
      exact t.operations.ascending
    rw [List.pairwise_map]
    exact hnames.imp fun hlt => .inr ⟨rfl, Text.bytes_lt_bytes hlt⟩
  · refine m.memory.ascending.imp fun {d e} hlt => ?_
    intro c hc c' hc'
    obtain ⟨f, -, rfl⟩ := List.mem_map.mp hc
    obtain ⟨f', -, rfl⟩ := List.mem_map.mp hc'
    exact .inl (Text.bytes_lt_bytes hlt)

theorem verbCalls_sorted : verbCalls.Pairwise Precedes := by
  have hnames : (Verb.all.map Verb.name).Pairwise (· < ·) := by decide
  rw [List.pairwise_map] at hnames
  unfold verbCalls
  rw [List.pairwise_map]
  exact hnames.imp fun hlt => .inr ⟨rfl, Text.bytes_lt_bytes hlt⟩

theorem mem_verbCalls {c : String × String} :
    c ∈ verbCalls ↔ ∃ verb : Verb, c = (cursorName, verb.name) := by
  have hall (verb : Verb) : verb ∈ Verb.all := by cases verb <;> decide
  simp only [verbCalls, List.mem_map, hall, true_and, eq_comm]

theorem nodup_answered_append {m : Machine X} (h : m.memory.get? cursorName = none) :
    (answered m ++ verbCalls).Nodup := by
  have hdisjoint : ∀ c ∈ answered m, ∀ d ∈ verbCalls, c ≠ d := by
    rintro ⟨stack, function⟩ hc d hd rfl
    obtain ⟨verb, he⟩ := mem_verbCalls.mp hd
    obtain ⟨rfl, -⟩ := Prod.mk.inj he
    rw [mem_answered, Machine.answers, h] at hc
    cases hc
  refine List.nodup_append.mpr ⟨?_, ?_, hdisjoint⟩
  · exact (answered_sorted m).imp Precedes.ne
  · exact verbCalls_sorted.imp Precedes.ne

/-- Where no stack has the name of the cursor, every call is registered once. -/
theorem lists_ofMachine {m : Machine X} (h : m.memory.get? cursorName = none) :
    (ofMachine m).Lists (answered m ++ verbCalls) :=
  lists_empty.foldl_register (nodup_answered_append h)

end

theorem answers_ofKinds {kinds : List Kind} {stack function : String} :
    (.ofKinds kinds : Machine Empty).answers stack function = true ↔
      ∃ k ∈ kinds, stack = k.name ∧
        (OperationTable.standard k : OperationTable Empty).contains function = true := by
  unfold Machine.answers
  constructor
  · intro h
    obtain ⟨t, ht, hf⟩ := (Option.any_eq_true _ _).mp h
    rw [Machine.get?_ofKinds_eq, Option.map_eq_some_iff] at ht
    obtain ⟨k, hfind, rfl⟩ := ht
    have hname : k.name = stack := by simpa using List.find?_some hfind
    exact ⟨k, List.mem_of_find?_eq_some hfind, hname.symm, hf⟩
  · rintro ⟨k, hk, rfl, hf⟩
    rw [Machine.get?_ofKinds_of_mem hk]
    exact hf

theorem get?_cursorName_ofKinds (kinds : List Kind) :
    (.ofKinds kinds : Machine Empty).memory.get? cursorName = none := by
  apply Machine.get?_ofKinds_of_not_mem
  rw [List.mem_map]
  rintro ⟨k, -, hk⟩
  revert hk
  cases k <;> decide

theorem lists_ofKinds (kinds : List Kind) :
    let m : Machine Empty := .ofKinds kinds
    (ofMachine m).Lists (answered m ++ verbCalls) :=
  lists_ofMachine (get?_cursorName_ofKinds kinds)

theorem nodup_symbols_ofKinds (kinds : List Kind) :
    (ofMachine (.ofKinds kinds : Machine Empty)).symbols.Nodup := by
  have hlists := lists_ofKinds kinds
  refine hlists.nodup_symbols fun c hc => ?_
  have hregistered := (hlists.isRegistered_iff c.1 c.2).mpr hc
  exact (isSpeakable_of_isRegistered hregistered).isNameRun_stack.point_not_mem

end Vocabulary

namespace Interpreter
open Vocabulary
variable {σ : Type} [RandomSource σ]

theorem freshMachine_congr {o o' : Options} (hne : o.kinds ≠ []) (hne' : o'.kinds ≠ [])
    (hkinds : ∀ k, k ∈ o.kinds ↔ k ∈ o'.kinds) :
    freshMachine o.validate.value = freshMachine o'.validate.value := by
  apply Machine.ofKinds_congr
  intro k
  rw [Options.mem_kinds_validate hne, Options.mem_kinds_validate hne', hkinds]

omit [RandomSource σ] in
theorem value_ofSource (o : Options) (source : σ) :
    (ofSource o source).value =
      { options := o.validate.value
        vocabulary := .ofMachine (freshMachine o.validate.value)
        source } :=
  rfl

/-- Interpreters that start from the same machine with the same fuse do the same. -/
theorem result_congr {i i' : Interpreter σ}
    (hfresh : freshMachine i.options = freshMachine i'.options)
    (hmax : i.options.maxInstructions = i'.options.maxInstructions) (hsource : i.source = i'.source)
    (program : Program) (state : Option Snapshot) :
    i.result program state = i'.result program state := by
  have hstart : i.start program state = i'.start program state := by
    unfold start
    rw [hfresh, hsource]
  have hfuse : i.fuse = i'.fuse := by
    unfold fuse
    rw [hmax]
  rw [result_eq_run, result_eq_run, hstart, hfuse]

/-- Options that name the same kinds and have the same budget make interpreters with the same words
and the same runs. The words are those of the calls, by stack and function, and then those of the
verbs; none occurs twice. The counts of the runs fit a word unless the budget is the greatest
word. -/
theorem ofSource_congr_kinds {o o' : Options} (hmax : o.maxInstructions = o'.maxInstructions)
    (hne : o.kinds ≠ []) (hne' : o'.kinds ≠ []) (hkinds : ∀ k, k ∈ o.kinds ↔ k ∈ o'.kinds)
    (source : σ) :
    let i := (ofSource o source).value
    let i' := (ofSource o' source).value
    i.vocabulary = i'.vocabulary ∧
    (∃ calls verbs : List (String × String),
      i.vocabulary.symbols = (calls ++ verbs).map (fun c => c.1 ++ "." ++ c.2) ∧
      (∀ stack function, i.vocabulary.isRegistered stack function = true ↔
        (stack, function) ∈ calls ++ verbs) ∧
      calls.Pairwise Precedes ∧
      (∀ stack function, (stack, function) ∈ calls ↔ ∃ k ∈ o.kinds, stack = k.name ∧
        (OperationTable.standard k : OperationTable Empty).contains function = true) ∧
      verbs.Pairwise Precedes ∧
      ∀ c, c ∈ verbs ↔ ∃ verb : Verb, c = ("cursor", verb.name)) ∧
    i.vocabulary.symbols.Nodup ∧
    (∀ program state,
      (i.execute program state).value.1 = (i'.execute program state).value.1 ∧
      (i.execute program state).value.2.source = (i'.execute program state).value.2.source) ∧
    (o.maxInstructions.toNat < UInt64.size - 1 → ∀ program state, i.CountFits program state) := by
  intro i i'
  have hi : i = _ := value_ofSource o source
  have hi' : i' = _ := value_ofSource o' source
  clear_value i i'
  have hoptions : i.options = o.validate.value := by rw [hi]
  have hoptions' : i'.options = o'.validate.value := by rw [hi']
  have hfresh : freshMachine i.options = freshMachine i'.options := by
    rw [hoptions, hoptions']
    exact freshMachine_congr hne hne' hkinds
  have hbudget : i.options.maxInstructions = i'.options.maxInstructions := by
    rw [hoptions, hoptions', Options.maxInstructions_validate, Options.maxInstructions_validate]
    exact hmax
  have hvocabulary : i.vocabulary = .ofMachine (freshMachine i.options) := by rw [hi]
  have hvocabulary' : i'.vocabulary = .ofMachine (freshMachine i'.options) := by rw [hi']
  have hsource : i.source = i'.source := by rw [hi, hi']
  have hlists : i.vocabulary.Lists (answered (freshMachine i.options) ++ verbCalls) := by
    rw [hvocabulary]
    exact lists_ofKinds _
  refine ⟨?_, ⟨answered (freshMachine i.options), verbCalls, hlists.symbols_eq,
    hlists.isRegistered_iff, answered_sorted _, ?_, verbCalls_sorted, fun _ => mem_verbCalls⟩, ?_,
    fun program state => ?_, fun hlt => ?_⟩
  · rw [hvocabulary, hvocabulary', hfresh]
  · intro stack function
    have hvalid (k : Kind) : k ∈ i.options.kinds ↔ k ∈ o.kinds := by
      rw [hoptions]
      exact Options.mem_kinds_validate hne
    have hanswers := @answers_ofKinds i.options.kinds stack function
    simp only [hvalid] at hanswers
    rw [mem_answered]
    exact hanswers
  · rw [hvocabulary]
    exact nodup_symbols_ofKinds _
  · have hresult := result_congr hfresh hbudget hsource program state
    exact Prod.mk.inj hresult
  · rw [← Options.maxInstructions_validate o, ← hoptions] at hlt
    exact countFits_of_budget hlt

/-- The kinds of one list in another order and with a repetition. -/
theorem ofSource_congr_kinds_reordered :
    let o : Options := { kinds := [.float, .integer, .float], seed := some 7 }
    let o' : Options := { kinds := [.integer, .float] }
    let source : Script := ⟨[4], [0.25]⟩
    let i := (ofSource o source).value
    let i' := (ofSource o' source).value
    let program : Program :=
      #[⟨.call "float" "rand", "float.rand", 0⟩, ⟨.call "integer" "rand", "integer.rand", 0⟩]
    o.maxInstructions = o'.maxInstructions ∧ (∀ k, k ∈ o.kinds ↔ k ∈ o'.kinds) ∧
    i.vocabulary = i'.vocabulary ∧ i.vocabulary.symbols.Nodup ∧
    i.vocabulary.symbols.take 2 = ["float.%", "float.*"] ∧
    (i.execute program none).value.1 = (i'.execute program none).value.1 ∧
    (i.execute program none).value.2.source = (i'.execute program none).value.2.source ∧
    (i.execute program none).value.1.snapshot =
      .ofList [("float", [.float 0.25]), ("integer", [.integer 4])] ∧
    (i.execute program none).value.1.executed = 2 ∧
    (i.execute program none).value.2.source = ⟨[], []⟩ := by
  intro o o' source i i' program
  have hkinds : ∀ k, k ∈ o.kinds ↔ k ∈ o'.kinds := by
    intro k
    cases k <;> decide
  have hmax : o.maxInstructions = o'.maxInstructions := rfl
  obtain ⟨hvocabulary, -, hnodup, hruns, -⟩ :=
    ofSource_congr_kinds hmax (List.cons_ne_nil _ _) (List.cons_ne_nil _ _) hkinds source
  have hrun : (i.execute program none).value.1.snapshot =
        .ofList [("float", [.float 0.25]), ("integer", [.integer 4])] ∧
      (i.execute program none).value.1.executed = 2 ∧
      (i.execute program none).value.2.source = ⟨[], []⟩ :=
    execute_of_runWithin? 3 (by decide +kernel)
  exact ⟨hmax, hkinds, hvocabulary, hnodup, by decide +kernel, (hruns program none).1,
    (hruns program none).2, hrun⟩

end Interpreter
end StackMachine
