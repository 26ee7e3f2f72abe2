import StackMachine.Proofs.Adoption
import StackMachine.Proofs.Budget
import StackMachine.Proofs.Resolution

/-! Who draws from the random source of a run. An instruction is a function of what the source
answers to the draws that the instruction itself asks for, so a run depends on its source through
the answers to the draws of its history and through nothing else. -/
namespace StackMachine

/-- A draw that an instruction can ask for. -/
inductive Draw where
  | integer
  | float
deriving DecidableEq, Repr

namespace Draw
variable {σ : Type} [RandomSource σ]

/-- The kind of the value that is drawn. -/
def kind : Draw → Kind
  | .integer => .integer
  | .float => .float

/-- The value that a source answers with, and what the source becomes. -/
def serve (d : Draw) (source : σ) : Element × σ :=
  match d with
  | .integer =>
    let (n, source) := RandomSource.randomInteger source
    (.integer n, source)
  | .float =>
    let (x, source) := RandomSource.randomFloat source
    (.float x, source)

/-- Makes draws one after the other. -/
def serveAll : List Draw → σ → List Element × σ
  | [], source => ([], source)
  | d :: draws, source =>
    let (e, source) := d.serve source
    let (elements, source) := serveAll draws source
    (e :: elements, source)

theorem length_serveAll (draws : List Draw) (source : σ) :
    (serveAll draws source).1.length = draws.length := by
  induction draws generalizing source with
  | nil => rfl
  | cons d draws ih =>
    change (serveAll draws (d.serve source).2).1.length + 1 = draws.length + 1
    rw [ih]

theorem serveAll_append (before after : List Draw) (source : σ) :
    serveAll (before ++ after) source =
      ((serveAll before source).1 ++ (serveAll after (serveAll before source).2).1,
        (serveAll after (serveAll before source).2).2) := by
  induction before generalizing source with
  | nil => rfl
  | cons d before ih =>
    have hcons (draws : List Draw) : serveAll (d :: draws) source =
        ((d.serve source).1 :: (serveAll draws (d.serve source).2).1,
          (serveAll draws (d.serve source).2).2) := rfl
    rw [List.cons_append, hcons, hcons, ih]
    rfl

/-- Sources that answer alike to some draws answer alike to the first of them and to the others. -/
theorem answers_append {τ : Type} [RandomSource τ] {before after : List Draw} {s : σ} {t : τ}
    (h : (serveAll (before ++ after) t).1 = (serveAll (before ++ after) s).1) :
    (serveAll before t).1 = (serveAll before s).1 ∧
      (serveAll after (serveAll before t).2).1 = (serveAll after (serveAll before s).2).1 := by
  rw [serveAll_append, serveAll_append] at h
  exact List.append_inj h (by rw [length_serveAll, length_serveAll])

end Draw

/-- The draws that a command asks for on stacks of some kinds: a call of `rand` on the integer stack
or on the float stack asks for one. -/
def Command.draws (kinds : List Kind) : Command → List Draw
  | .call "integer" "rand" => if .integer ∈ kinds then [.integer] else []
  | .call "float" "rand" => if .float ∈ kinds then [.float] else []
  | _ => []

/-- The draws of a history of instructions, in the order of the history. -/
def Instruction.drawsOf (kinds : List Kind) (history : List Instruction) : List Draw :=
  history.flatMap (·.command.draws kinds)

theorem Instruction.drawsOf_append (kinds : List Kind) (before after : List Instruction) :
    drawsOf kinds (before ++ after) = drawsOf kinds before ++ drawsOf kinds after :=
  List.flatMap_append

/-- The draws that an operation makes. -/
def Builtin.draws : Builtin → List Draw
  | .integer .rand => [.integer]
  | .float .rand => [.float]
  | _ => []

theorem Command.mem_draws {kinds : List Kind} {command : Command} {d : Draw}
    (h : d ∈ command.draws kinds) :
    command = .call d.kind.name "rand" ∧ d.kind ∈ kinds ∧ command.draws kinds = [d] := by
  unfold draws at h ⊢
  split at h
  · by_cases hk : Kind.integer ∈ kinds
    · rw [if_pos hk, List.mem_singleton] at h
      subst h
      exact ⟨rfl, hk, if_pos hk⟩
    · rw [if_neg hk] at h
      cases h
  · by_cases hk : Kind.float ∈ kinds
    · rw [if_pos hk, List.mem_singleton] at h
      subst h
      exact ⟨rfl, hk, if_pos hk⟩
    · rw [if_neg hk] at h
      cases h
  · cases h

theorem Command.draws_eq_nil {kinds : List Kind} {command : Command}
    (h : ∀ stack, command ≠ .call stack "rand") : command.draws kinds = [] := by
  rw [List.eq_nil_iff_forall_not_mem]
  intro d hd
  exact h d.kind.name (mem_draws hd).1

theorem Builtin.draws_eq_nil {op : Builtin} (h : op.name ≠ "rand") : op.draws = [] := by
  unfold draws
  split
  · exact absurd rfl h
  · exact absurd rfl h
  · rfl

/-- Delivers the answer to the only draw that was made. -/
def Memory.receive {X : Type} (m : Memory X) (target : String) : List Element → Memory X
  | [.integer n] => m.deliver n target
  | [.float x] => m.deliver x target
  | _ => m

/-- What an operation does is a function of the answers to its draws. -/
theorem Builtin.exists_apply_eq {X : Type} (op : Builtin) (target : String) (m : Memory X) :
    ∃ next : List Element → Memory X, ∀ {σ : Type} [RandomSource σ] (source : σ),
      op.apply target m source =
        (next (Draw.serveAll op.draws source).1, (Draw.serveAll op.draws source).2) := by
  cases op with
  | common op => exact ⟨fun _ => op.apply target m, fun _ => rfl⟩
  | integer op =>
    cases op with
    | rand => exact ⟨m.receive target, fun _ => rfl⟩
    | _ => exact ⟨fun _ => _, fun _ => rfl⟩
  | float op =>
    cases op with
    | rand => exact ⟨m.receive target, fun _ => rfl⟩
    | _ => exact ⟨fun _ => _, fun _ => rfl⟩
  | boolean op => exact ⟨fun _ => op.apply target m, fun _ => rfl⟩

theorem OperationTable.name_of_get?_standard {X : Type} {k : Kind} {function : String}
    {op : Builtin} (h : (standard k : OperationTable X).get? function = some (.builtin op)) :
    op.name = function := by
  have hentry (ops : List Builtin)
      (hmem : (function, Operation.builtin op) ∈ ops.map (Builtin.entry (X := X))) :
      op.name = function := by
    obtain ⟨op', -, he⟩ := List.mem_map.mp hmem
    obtain ⟨hname, hop⟩ := Prod.mk.inj he
    cases hop
    exact hname
  rcases NameMap.get?_insertAll_eq_some h with hcommon | hmem
  · rcases NameMap.get?_insertAll_eq_some hcommon with hnone | hmem
    · cases hnone
    · exact hentry (CommonOp.all.map .common) (by rwa [List.map_map])
  · exact hentry _ hmem

theorem OperationTable.get?_standard_rand (k : Kind) :
    (standard k : OperationTable Empty).get? "rand" = match k with
      | .integer => some (.builtin (.integer .rand))
      | .float => some (.builtin (.float .rand))
      | .boolean => none := by
  cases k <;> decide

namespace Machine
open Memory

section
variable {X : Type}

/-- The operation that a call finds. -/
def operation? (m : Machine X) (stack function : String) : Option (Operation X) :=
  (m.memory.get? stack).bind (·.operations.get? function)

theorem operation?_eq_of_layout {m m' : Machine X} (h : m'.memory.layout = m.memory.layout)
    (stack function : String) : m'.operation? stack function = m.operation? stack function := by
  have hstack := congrArg (fun l => (l.get? stack).bind (·.2.get? function)) h
  simp only [get?_layout, Option.bind_map] at hstack
  exact hstack

/-- The stack of a name in a machine that was made for some kinds. -/
theorem get?_ofKinds_eq (kinds : List Kind) (name : String) :
    (ofKinds kinds : Machine X).memory.get? name =
      (kinds.find? (·.name = name)).map TypedStack.standard := by
  have hfold (m : Memory X) :
      (m.insertAll (kinds.map fun k => (k.name, .standard k))).get? name =
        ((kinds.find? (·.name = name)).map TypedStack.standard).or (m.get? name) := by
    induction kinds generalizing m with
    | nil => rfl
    | cons k kinds ih =>
      have hinsert : m.insertAll ((k :: kinds).map fun k => (k.name, .standard k)) =
          NameMap.insertAll (m.insert k.name (.standard k))
            (kinds.map fun k => (k.name, .standard k)) := rfl
      rw [hinsert, ih, NameMap.get?_insert]
      by_cases hk : k.name = name
      · -- A later stack of the name is of the same kind.
        rw [List.find?_cons_of_pos (by simpa using hk), if_pos hk]
        cases hfind : kinds.find? (·.name = name) with
        | none => rfl
        | some j =>
          have hj : j.name = name := by simpa using List.find?_some hfind
          rw [Kind.name_injective (hj.trans hk.symm)]
          rfl
      · rw [List.find?_cons_of_neg (by simpa using hk), if_neg hk]
  have h := hfold .empty
  rw [NameMap.get?_empty, Option.or_none] at h
  exact h

theorem get?_ofKinds_of_mem {kinds : List Kind} {k : Kind} (h : k ∈ kinds) :
    (ofKinds kinds : Machine X).memory.get? k.name = some (.standard k) := by
  rw [get?_ofKinds_eq]
  cases hfind : kinds.find? (·.name = k.name) with
  | none =>
    have hne := List.find?_eq_none.mp hfind k h
    simp at hne
  | some j =>
    have hj : j.name = k.name := by simpa using List.find?_some hfind
    rw [Kind.name_injective hj]
    rfl

end

/-- The operation that a call finds makes the draws of the call. -/
theorem draws_of_call (kinds : List Kind) (stack function : String) :
    (Command.call stack function).draws kinds =
      match (ofKinds kinds : Machine Empty).operation? stack function with
      | some (.builtin op) => op.draws
      | _ => [] := by
  unfold operation?
  rw [get?_ofKinds_eq]
  cases hfind : kinds.find? (·.name = stack) with
  | none =>
    refine List.eq_nil_iff_forall_not_mem.mpr fun d hd => ?_
    obtain ⟨hcommand, hk, -⟩ := Command.mem_draws hd
    cases hcommand
    have hne := List.find?_eq_none.mp hfind d.kind hk
    simp at hne
  | some k =>
    have hk : k ∈ kinds := List.mem_of_find?_eq_some hfind
    have hname : k.name = stack := by simpa using List.find?_some hfind
    subst hname
    have hops : (TypedStack.standard k : TypedStack Empty).operations = .standard k := rfl
    simp only [Option.map_some, Option.bind_some, hops]
    by_cases hrand : function = "rand"
    · subst hrand
      rw [OperationTable.get?_standard_rand]
      cases k with
      | integer => exact if_pos hk
      | float => exact if_pos hk
      | boolean => rfl
    · have hnil : (Command.call k.name function).draws kinds = [] := by
        refine Command.draws_eq_nil fun other h => hrand ?_
        cases h
        rfl
      rw [hnil]
      split
      · rename_i op hop
        have hop : op.name = function := OperationTable.name_of_get?_standard hop
        rw [Builtin.draws_eq_nil (by rw [hop]; exact hrand)]
      · rfl

/-! What an instruction does is a function of the answers to its draws. -/

theorem exists_call_eq {kinds : List Kind} {m : Machine Empty}
    (h : m.memory.layout = (ofKinds kinds : Machine Empty).memory.layout)
    (stack function : String) :
    ∃ next : List Element → Machine Empty, ∀ {σ : Type} [RandomSource σ] (source : σ),
      let served := Draw.serveAll ((Command.call stack function).draws kinds) source
      m.call stack function source = (next served.1, served.2) := by
  have hdraws := draws_of_call kinds stack function
  rw [← operation?_eq_of_layout h] at hdraws
  cases hop : m.operation? stack function with
  | none =>
    rw [hop] at hdraws
    refine ⟨fun _ => m, fun source => ?_⟩
    rw [hdraws]
    unfold call
    unfold operation? at hop
    rw [hop]
    rfl
  | some op =>
    cases op with
    | builtin op =>
      rw [hop] at hdraws
      obtain ⟨next, hnext⟩ := op.exists_apply_eq stack m.memory
      refine ⟨fun answers => { m with memory := next answers }, fun source => ?_⟩
      rw [hdraws]
      unfold call
      unfold operation? at hop
      simp only [hop, hnext source]
    | host op => exact nomatch op

theorem exists_perform_eq {kinds : List Kind} {m : Machine Empty}
    (h : m.memory.layout = (ofKinds kinds : Machine Empty).memory.layout) (i : Instruction) :
    ∃ next : List Element → Machine Empty, ∀ {σ : Type} [RandomSource σ] (source : σ),
      let served := Draw.serveAll (i.command.draws kinds) source
      m.perform i source = (next served.1, served.2) := by
  unfold perform
  cases i.command with
  | literal kind => exact ⟨fun _ => m.pushLiteral kind i.token, fun _ => rfl⟩
  | call stack function => exact exists_call_eq h stack function
  | cursor verb => exact ⟨fun _ => m.steer verb, fun _ => rfl⟩
  | noop => exact ⟨fun _ => m, fun _ => rfl⟩

section
variable {σ τ : Type} [RandomSource σ] [RandomSource τ]

/-- The same outcome with another source. -/
def Outcome.withSource {X : Type} (o : Outcome X σ) (source : τ) : Outcome X τ :=
  match o with
  | .again s => .again (s.1, source)
  | .over s => .over (s.1, source)

omit [RandomSource σ] [RandomSource τ] in
theorem Outcome.state_withSource {X : Type} (o : Outcome X σ) (source : τ) :
    (o.withSource source).state = (o.state.1, source) := by
  cases o <;> rfl

/-- Sources that answer alike to the draws of an instruction turn a machine into the same one. -/
theorem turn_of_answers {kinds : List Kind} {m : Machine Empty}
    (h : m.memory.layout = (ofKinds kinds : Machine Empty).memory.layout) (i : Instruction)
    {s : σ} {t : τ} (hsame : (Draw.serveAll (i.command.draws kinds) t).1 =
      (Draw.serveAll (i.command.draws kinds) s).1) :
    m.turn i t = ((m.turn i s).1, (Draw.serveAll (i.command.draws kinds) t).2) := by
  obtain ⟨next, hnext⟩ := exists_perform_eq h i
  unfold turn
  rw [hnext s, hnext t, hsame]

theorem round_of_answers (fuse : Nat) {kinds : List Kind} {m : Machine Empty}
    (h : m.memory.layout = (ofKinds kinds : Machine Empty).memory.layout) {s : σ} {t : τ}
    (hsame : (Draw.serveAll (Instruction.drawsOf kinds m.cursor.current?.toList) t).1 =
      (Draw.serveAll (Instruction.drawsOf kinds m.cursor.current?.toList) s).1) :
    round fuse (m, t) = (round fuse (m, s)).withSource
      (Draw.serveAll (Instruction.drawsOf kinds m.cursor.current?.toList) t).2 := by
  unfold round
  cases hc : m.cursor.current? with
  | none => rfl
  | some i =>
    have hdraws : Instruction.drawsOf kinds (some i).toList = i.command.draws kinds := by
      simp [Instruction.drawsOf]
    rw [hc, hdraws] at hsame
    simp only [hdraws]
    by_cases hi : i.command = .noop
    · simp only [hi, if_true]
      rfl
    · have hturn := turn_of_answers h i hsame
      have hfst : (m.turn i t).1 = (m.turn i s).1 := by rw [hturn]
      simp only [hi, if_false, hfst]
      by_cases hf : fuse < (m.turn i s).1.executed
      · rw [if_pos hf, if_pos hf, hturn]
        rfl
      · rw [if_neg hf, if_neg hf, hturn]
        rfl

theorem source_round (fuse : Nat) {kinds : List Kind} {s : Machine Empty × σ}
    (h : s.1.memory.layout = (ofKinds kinds : Machine Empty).memory.layout) :
    (round fuse s).state.2 =
      (Draw.serveAll (Instruction.drawsOf kinds s.1.cursor.current?.toList) s.2).2 := by
  have hself := round_of_answers fuse h (s := s.2) (t := s.2) rfl
  have hsource := congrArg (·.state.2) hself
  simp only [Outcome.state_withSource] at hsource
  exact hsource

end

/-! Runs with the instructions that they stood at. -/
section
variable {X σ : Type} [Host X] [RandomSource σ]

/-- The instructions that the loop stood at in the rounds that lead to a state at its head. -/
inductive Trace (fuse : Nat) (start : Machine X × σ) :
    List Instruction → Machine X × σ → Prop where
  | refl : Trace fuse start [] start
  | next {history : List Instruction} {s t : Machine X × σ} : Trace fuse start history s →
      round fuse s = .again t → Trace fuse start (history ++ s.1.cursor.current?.toList) t

/-- The instructions that the loop stood at in all rounds up to the end of a run. -/
def Performs (fuse : Nat) (start : Machine X × σ) (history : List Instruction)
    (t : Machine X × σ) : Prop :=
  ∃ before last, Trace fuse start before last ∧ round fuse last = .over t ∧
    history = before ++ last.1.cursor.current?.toList

theorem Trace.reaches {fuse : Nat} {start s : Machine X × σ} {history : List Instruction}
    (h : Trace fuse start history s) : ∃ n, Reaches fuse start n s := by
  induction h with
  | refl => exact ⟨0, .refl⟩
  | next _ hr ih =>
    obtain ⟨n, hn⟩ := ih
    exact ⟨n + 1, .next hn hr⟩

theorem Reaches.exists_trace {fuse n : Nat} {start s : Machine X × σ}
    (h : Reaches fuse start n s) : ∃ history, Trace fuse start history s := by
  induction h with
  | refl => exact ⟨[], .refl⟩
  | next _ hr ih =>
    obtain ⟨history, hh⟩ := ih
    exact ⟨_, .next hh hr⟩

theorem exists_performs_run (fuse : Nat) (m : Machine X) (source : σ) :
    ∃ history, Performs fuse (m, source) history (m.run fuse source) := by
  obtain ⟨n, last, hn, hl⟩ := run_ends fuse m source
  obtain ⟨before, hb⟩ := hn.exists_trace
  exact ⟨_, before, last, hb, hl, rfl⟩

theorem Performs.eq_run {fuse : Nat} {start t : Machine X × σ} {history : List Instruction}
    (h : Performs fuse start history t) : t = start.1.run fuse start.2 := by
  obtain ⟨before, last, hb, hl, -⟩ := h
  obtain ⟨n, hn⟩ := hb.reaches
  rw [hn.run_eq, run_of_over hl]

end

section
variable {σ : Type} [RandomSource σ]

theorem InProgram.mem_of_current? {program : Program} {m : Machine Empty} {c : Instruction}
    (h : InProgram program m) (hc : c ∈ m.cursor.current?.toList) : c ∈ program := by
  have hcurrent : m.cursor.current? = some c := Option.mem_toList.mp hc
  rw [Cursor.current?, h.program_eq] at hcurrent
  exact Array.mem_of_getElem? hcurrent

theorem Trace.mem_program {fuse : Nat} {program : Program} {start s : Machine Empty × σ}
    {history : List Instruction} (h : Trace fuse start history s)
    (hstart : InProgram program start.1) :
    InProgram program s.1 ∧ ∀ c ∈ history ++ s.1.cursor.current?.toList, c ∈ program := by
  induction h with
  | refl => exact ⟨hstart, fun c hc => hstart.mem_of_current? hc⟩
  | @next history s t _ hr ih =>
    obtain ⟨hin, hall⟩ := ih
    have ht := InProgram.round fuse s hin
    rw [hr] at ht
    refine ⟨ht, fun c hc => ?_⟩
    rcases List.mem_append.mp hc with hc | hc
    · exact hall c hc
    · exact ht.mem_of_current? hc

/-- Where a source has served some draws, the next round serves those of the instruction at hand; a
source that answers alike to all of them leads to the same machine. -/
theorem round_replay (fuse : Nat) {kinds : List Kind} {before history : List Instruction}
    {s : Machine Empty × σ} {source : σ} {τ : Type} [RandomSource τ] {t : τ}
    (hlayout : s.1.memory.layout = (ofKinds kinds : Machine Empty).memory.layout)
    (hsource : s.2 = (Draw.serveAll (Instruction.drawsOf kinds before) source).2)
    (hhistory : history = before ++ s.1.cursor.current?.toList)
    (hsame : (Draw.serveAll (Instruction.drawsOf kinds history) t).1 =
      (Draw.serveAll (Instruction.drawsOf kinds history) source).1) :
    (round fuse s).state.2 = (Draw.serveAll (Instruction.drawsOf kinds history) source).2 ∧
    round fuse (s.1, (Draw.serveAll (Instruction.drawsOf kinds before) t).2) =
      (round fuse s).withSource (Draw.serveAll (Instruction.drawsOf kinds history) t).2 := by
  subst hhistory
  rw [Instruction.drawsOf_append] at hsame ⊢
  obtain ⟨-, hlast⟩ := Draw.answers_append hsame
  rw [← hsource] at hlast
  rw [Draw.serveAll_append, Draw.serveAll_append, ← hsource]
  exact ⟨source_round fuse hlayout, round_of_answers fuse hlayout hlast⟩

/-- On the way of a run the source has served the draws of the history, and every source that
answers alike to them goes the same way. -/
theorem Trace.replay {fuse : Nat} {kinds : List Kind} {start s : Machine Empty × σ}
    {history : List Instruction} (h : Trace fuse start history s)
    (hlayout : start.1.memory.layout = (ofKinds kinds : Machine Empty).memory.layout)
    {τ : Type} [RandomSource τ] {t : τ}
    (hsame : (Draw.serveAll (Instruction.drawsOf kinds history) t).1 =
      (Draw.serveAll (Instruction.drawsOf kinds history) start.2).1) :
    s.1.memory.layout = (ofKinds kinds : Machine Empty).memory.layout ∧
    s.2 = (Draw.serveAll (Instruction.drawsOf kinds history) start.2).2 ∧
    Trace fuse (start.1, t) history
      (s.1, (Draw.serveAll (Instruction.drawsOf kinds history) t).2) := by
  induction h with
  | refl => exact ⟨hlayout, rfl, .refl⟩
  | @next history s u _ hr ih =>
    have hbefore := hsame
    rw [Instruction.drawsOf_append] at hbefore
    obtain ⟨hl, hsource, htrace⟩ := ih (Draw.answers_append hbefore).1
    obtain ⟨hnext, hround⟩ := round_replay fuse hl hsource rfl hsame
    have hlnext := layout_round fuse s hl
    rw [hr] at hnext hround hlnext
    exact ⟨hlnext, hnext, .next htrace hround⟩

theorem Performs.replay {fuse : Nat} {kinds : List Kind} {start s : Machine Empty × σ}
    {history : List Instruction} (h : Performs fuse start history s)
    (hlayout : start.1.memory.layout = (ofKinds kinds : Machine Empty).memory.layout)
    {τ : Type} [RandomSource τ] {t : τ}
    (hsame : (Draw.serveAll (Instruction.drawsOf kinds history) t).1 =
      (Draw.serveAll (Instruction.drawsOf kinds history) start.2).1) :
    s.2 = (Draw.serveAll (Instruction.drawsOf kinds history) start.2).2 ∧
    Performs fuse (start.1, t) history
      (s.1, (Draw.serveAll (Instruction.drawsOf kinds history) t).2) := by
  obtain ⟨before, last, hb, hr, hhistory⟩ := h
  have hbefore := hsame
  rw [hhistory, Instruction.drawsOf_append] at hbefore
  obtain ⟨hl, hsource, htrace⟩ := hb.replay hlayout (Draw.answers_append hbefore).1
  obtain ⟨hnext, hround⟩ := round_replay fuse hl hsource hhistory hsame
  rw [hr] at hnext hround
  exact ⟨hnext, before, _, htrace, hround, hhistory⟩

/-- A draw pushes its answer on the stack of its kind. -/
theorem replaces_of_mem_draws {kinds : List Kind} {m : Machine Empty}
    (hlayout : m.memory.layout = (ofKinds kinds : Machine Empty).memory.layout)
    {i : Instruction} {d : Draw} (hd : d ∈ i.command.draws kinds) (source : σ) :
    m.memory.Replaces d.kind.name [] d.kind.name [(d.serve source).1]
      (m.perform i source).1.memory := by
  obtain ⟨hcommand, hk, -⟩ := Command.mem_draws hd
  have hfresh := get?_ofKinds_of_mem (X := Empty) hk
  have hkind : m.kind? d.kind.name = some d.kind := by
    rw [kind?_eq_of_layout hlayout, kind?, hfresh]
    cases d <;> rfl
  have hholds : m.memory.holds d.kind.name d.kind 0 = true := by
    obtain ⟨t, ht, htk⟩ := Option.map_eq_some_iff.mp hkind
    exact holds_eq_true_iff.mpr ⟨t, ht, htk, Nat.zero_le _⟩
  have hop : (m.memory.get? d.kind.name).bind (·.operations.get? "rand") =
      (OperationTable.standard d.kind : OperationTable Empty).get? "rand" := by
    have h := operation?_eq_of_layout hlayout d.kind.name "rand"
    unfold operation? at h
    rw [h, hfresh]
    rfl
  rw [OperationTable.get?_standard_rand] at hop
  unfold perform call
  simp only [hcommand]
  cases d with
  | integer =>
    rw [show Draw.integer.kind = .integer from rfl] at hop hholds ⊢
    simp only [hop]
    exact (IntegerOp.apply_atomic .rand _ m.memory source).fires_iff.mpr hholds
  | float =>
    rw [show Draw.float.kind = .float from rfl] at hop hholds ⊢
    simp only [hop]
    exact (FloatOp.apply_atomic .rand _ m.memory source).fires_iff.mpr hholds

end
end Machine

namespace Interpreter
open Machine
variable {σ : Type} [RandomSource σ]

/-- The instructions that an execution stood at, from its first round to its last. -/
def Performs (i : Interpreter σ) (program : Program) (state : Option Snapshot)
    (history : List Instruction) : Prop :=
  Machine.Performs i.fuse (i.start program state) history (i.result program state)

theorem layout_of_visits {i : Interpreter σ} {program : Program} {state : Option Snapshot} {n : Nat}
    {s : Machine Empty × σ} (h : i.Visits program state n s) :
    s.1.memory.layout = (ofKinds i.options.kinds : Machine Empty).memory.layout :=
  layout_of_occurs (.inl ⟨n, h⟩)

theorem round_draws {i : Interpreter σ} {program : Program} {state : Option Snapshot} {n : Nat}
    {s : Machine Empty × σ} {c : Instruction} (hs : i.Visits program state n s)
    (hc : s.1.cursor.current? = some c) :
    let draws := c.command.draws i.options.kinds
    let next := (round i.fuse s).state
    next.2 = (Draw.serveAll draws s.2).2 ∧
    ∀ d ∈ draws, s.1.memory.Replaces d.kind.name [] d.kind.name [(d.serve s.2).1]
      next.1.memory := by
  have hlayout := layout_of_visits hs
  have hdraws : Instruction.drawsOf i.options.kinds s.1.cursor.current?.toList =
      c.command.draws i.options.kinds := by
    rw [hc]
    simp [Instruction.drawsOf]
  have hsource := source_round i.fuse hlayout
  rw [hdraws] at hsource
  refine ⟨hsource, fun d hd => ?_⟩
  have hnoop : c.command ≠ .noop := by
    rw [(Command.mem_draws hd).1]
    exact Command.noConfusion
  rw [state_round_of_command hc hnoop]
  exact replaces_of_mem_draws hlayout hd s.2

/-- Any source that answers alike to the draws of an execution leads to the same machine. -/
theorem Performs.replay {i : Interpreter σ} {program : Program} {state : Option Snapshot}
    {history : List Instruction} (h : i.Performs program state history) {τ : Type} [RandomSource τ]
    {j : Interpreter τ} (hoptions : j.options = i.options)
    (hsame : (Draw.serveAll (Instruction.drawsOf i.options.kinds history) j.source).1 =
      (Draw.serveAll (Instruction.drawsOf i.options.kinds history) i.source).1) :
    j.Performs program state history ∧ j.result program state = ((i.result program state).1,
      (Draw.serveAll (Instruction.drawsOf i.options.kinds history) j.source).2) := by
  have hstart : j.start program state = ((i.start program state).1, j.source) := by
    unfold start
    rw [hoptions]
  have hfuse : j.fuse = i.fuse := by rw [fuse, fuse, hoptions]
  obtain ⟨-, hperforms⟩ := Machine.Performs.replay h (i.layout_start program state) hsame
  rw [← hstart, ← hfuse] at hperforms
  have hresult := hperforms.eq_run
  rw [← result_eq_run] at hresult
  refine ⟨?_, hresult.symm⟩
  rw [hresult] at hperforms
  exact hperforms

theorem exists_performs (i : Interpreter σ) (program : Program) (state : Option Snapshot) :
    ∃ history, i.Performs program state history := by
  unfold Performs
  rw [result_eq_run]
  exact exists_performs_run i.fuse _ _

theorem Performs.drawsOf_eq_nil {i : Interpreter σ} {program : Program} {state : Option Snapshot}
    {history : List Instruction} (h : i.Performs program state history)
    (hrand : ∀ c ∈ program, ∀ stack, c.command ≠ .call stack "rand") :
    Instruction.drawsOf i.options.kinds history = [] := by
  obtain ⟨before, last, hb, -, rfl⟩ := h
  obtain ⟨-, hprogram⟩ := hb.mem_program (i.start_inProgram program state)
  refine List.flatMap_eq_nil_iff.mpr fun c hc => ?_
  exact Command.draws_eq_nil (hrand c (hprogram c hc))

/-- The source of an execution serves the draws of the calls of `rand` on its stacks, one for each
and in the order in which they are executed, and nothing else draws from it. The answers are pushed.
Any source that answers alike to these draws leads to the same machine, and where no `rand` is
called every source does and stays what it is. The count that trips the fuse fits a word unless the
budget is the greatest word. -/
theorem execute_draws (i : Interpreter σ) (program : Program) (state : Option Snapshot) :
    (∀ n s c, i.Visits program state n s → s.1.cursor.current? = some c →
      let draws := c.command.draws i.options.kinds
      let next := (round i.fuse s).state
      next.2 = (Draw.serveAll draws s.2).2 ∧
      ∀ d ∈ draws, s.1.memory.Replaces d.kind.name [] d.kind.name [(d.serve s.2).1]
        next.1.memory) ∧
    (∃ history, i.Performs program state history ∧
      let draws := Instruction.drawsOf i.options.kinds history
      (i.result program state).2 = (Draw.serveAll draws i.source).2 ∧
      ∀ (τ : Type) [RandomSource τ] (j : Interpreter τ), j.options = i.options →
        (Draw.serveAll draws j.source).1 = (Draw.serveAll draws i.source).1 →
        j.Performs program state history ∧
        j.result program state =
          ((i.result program state).1, (Draw.serveAll draws j.source).2)) ∧
    ((∀ c ∈ program, ∀ stack, c.command ≠ .call stack "rand") →
      (i.result program state).2 = i.source ∧
      ∀ (τ : Type) [RandomSource τ] (j : Interpreter τ), j.options = i.options →
        j.result program state = ((i.result program state).1, j.source)) ∧
    (i.options.maxInstructions.toNat < UInt64.size - 1 → i.CountFits program state) := by
  obtain ⟨history, hh⟩ := i.exists_performs program state
  have hsource := (Machine.Performs.replay hh (i.layout_start program state) rfl).1
  refine ⟨fun n s c hs hc => round_draws hs hc, ⟨history, hh, hsource, ?_⟩, fun hrand => ?_,
    fun hmax => countFits_of_budget hmax program state⟩
  · intro τ _ j hoptions hsame
    exact hh.replay hoptions hsame
  · have hnil := hh.drawsOf_eq_nil hrand
    rw [hnil] at hsource
    refine ⟨hsource, fun τ _ j hoptions => ?_⟩
    have hreplay := (hh.replay hoptions (by rw [hnil]; rfl)).2
    rw [hnil] at hreplay
    exact hreplay

end Interpreter
end StackMachine
