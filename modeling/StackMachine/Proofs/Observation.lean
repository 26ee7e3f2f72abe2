import StackMachine.Logger
import StackMachine.Options.Toml
import StackMachine.Proofs.Layout
import StackMachine.Proofs.Termination

/-! Logging only observes. Here the operations log while they work: they can look at the logger, and
every message goes out as soon as it is logged. They do what the functions with collected messages
do, and the threshold of the logger decides only which of the messages get through. -/
namespace StackMachine

/-- A computation with messages, or an error and no messages. -/
def Logged.ofExcept {ε α : Type} : Except ε (Logged α) → Logged (Except ε α)
  | .error e => return .error e
  | .ok x => return .ok (← x)

/-- A logger, and the channels that have a receiver. -/
structure Outlet where
  logger : Logger
  isOpen : Nat → Bool

/-- What becomes of a message: the logger is asked first, and checks again when it is used. -/
def Outlet.emissions (o : Outlet) (m : Message) : List Emission :=
  if o.logger.enabled m.severity then (o.logger.emit? o.isOpen m).toList else []

/-- Of messages that are logged for a channel, its receiver gets those that pass the threshold. -/
theorem Outlet.sentTo_emissions (isOpen : Nat → Bool) (channel : Nat) (level : Severity)
    (messages : List Message) :
    let o : Outlet := ⟨{ destination := .channel channel, level }, isOpen⟩
    Logger.sentTo channel (messages.flatMap o.emissions) =
      messages.filter fun m => m.severity.passes level && isOpen channel := by
  intro o
  induction messages with
  | nil => rfl
  | cons m messages ih =>
    have hsplit : Logger.sentTo channel ((m :: messages).flatMap o.emissions) =
        Logger.sentTo channel (o.emissions m) ++
          Logger.sentTo channel (messages.flatMap o.emissions) := by
      rw [List.flatMap_cons]
      exact List.filterMap_append
    rw [hsplit, ih]
    cases hpasses : m.severity.passes level with
    | false =>
      simp [o, emissions, Logger.enabled, Logger.sentTo, hpasses]
    | true =>
      cases hopen : isOpen channel with
      | false => simp [o, emissions, Logger.enabled, Logger.emit?, Logger.sentTo, hpasses, hopen]
      | true => simp [o, emissions, Logger.enabled, Logger.emit?, Logger.sentTo, hpasses, hopen]

/-- Computations that know the logger and leave emissions behind. -/
abbrev Live := ReaderT Outlet (StateM (List Emission))

namespace Live
section
variable {α β : Type}

def report (severity : Severity) (content : String) : Live Unit := do
  let o ← read
  modify (· ++ o.emissions ⟨severity, content⟩)

/-- Logs the messages of a result one after the other. -/
def ofLogged (x : Logged α) : Live α := do
  x.messages.forM fun m => report m.severity m.content
  return x.value

theorem ofLogged_pure (a : α) : ofLogged (pure a) = pure a := by
  have hmessages : (pure a : Logged α).messages = [] := rfl
  have hvalue : (pure a : Logged α).value = a := rfl
  simp [ofLogged, hmessages, hvalue]

theorem ofLogged_bind (x : Logged α) (f : α → Logged β) :
    ofLogged (x >>= f) = ofLogged x >>= fun a => ofLogged (f a) := by
  have hmessages : (x >>= f).messages = x.messages ++ (f x.value).messages := rfl
  have hvalue : (x >>= f).value = (f x.value).value := rfl
  simp [ofLogged, hmessages, hvalue]

/-- What follows a result is only asked about its value. -/
theorem bind_congr_value {x : Logged α} {f g : α → Live β} (h : f x.value = g x.value) :
    ofLogged x >>= f = ofLogged x >>= g := by
  simp [ofLogged, h]

theorem ofLogged_tell (severity : Severity) (content : String) :
    ofLogged (.tell severity content) = report severity content := by
  simp [ofLogged, Logged.tell]

theorem ofLogged_tellIf (condition : Bool) (severity : Severity) (content : String) :
    ofLogged (.tellIf condition severity content) =
      if condition then report severity content else pure () := by
  unfold Logged.tellIf
  split
  · exact ofLogged_tell severity content
  · exact ofLogged_pure ()

theorem run_ofLogged (x : Logged α) (o : Outlet) (e : List Emission) :
    ofLogged x o e = (x.value, e ++ x.messages.flatMap o.emissions) := by
  obtain ⟨value, messages⟩ := x
  induction messages generalizing e with
  | nil =>
    rw [List.flatMap_nil, List.append_nil]
    rfl
  | cons m messages ih =>
    have hstep : ofLogged ⟨value, m :: messages⟩ o e =
        ofLogged ⟨value, messages⟩ o (e ++ o.emissions m) := rfl
    rw [hstep, ih, List.flatMap_cons, List.append_assoc]

end

/-! The operations. Functions that log at most one message are taken as they are. -/
section
variable {X σ : Type}

def validate (o : Options) : Live Options := do
  let o ← ofLogged o.validateProbability
  let o ← ofLogged o.validateStacks
  ofLogged o.removeDuplicates

def ofToml (text : String) : Live (Except Options.Fault Options) :=
  match Options.parse? text with
  | some o => return .ok (← validate o)
  | none => return .error .unparsable

def load (describe : String → String) (path : String) (content : Option ByteArray) :
    Live (Except Options.Fault Options) :=
  match content.bind String.fromUTF8? with
  | none => return .error (.unreadable path)
  | some text => do
    let o ← match Options.parse? text with
      | some o => pure o
      | none => do
        report .error (Options.Fault.unparsable.message ++ ": " ++ describe text ++
          ". Using defaults.")
        pure {}
    return .ok (← validate o)

/-- Adds the instruction of a token to a program, or counts the token as dropped. -/
def readToken (v : Vocabulary) (s : Program × Nat) (token : String) : Program × Nat :=
  match v.instruction? token with
  | some i => (s.1.push i, s.2)
  | none => (s.1, s.2 + 1)

def readTokens (v : Vocabulary) (tokens : List String) : Live Program := do
  let (program, dropped) := tokens.foldl (readToken v) (#[], 0)
  if 0 < dropped then
    report .debug ("Parser dropped " ++ toString dropped ++ " unrecognized token(s)")
  return program

/-- Seeds one stack, and counts it if it exists. -/
def seedStack (s : Machine X × Nat) (entry : String × List Element) : Live (Machine X × Nat) :=
  match s.1.memory.get? entry.1 with
  | none => do
    ofLogged (Machine.unknownStack entry.1)
    return s
  | some t => do
    let (seeded, rejected) := t.seed entry.2
    ofLogged (Machine.rejectedElements rejected t.kind entry.1)
    return ({ s.1 with memory := s.1.memory.insert entry.1 seeded }, s.2 + 1)

def seed (m : Machine X) (state : Snapshot) : Live (Machine X) := do
  let (seeded, applied) ← state.entries.foldlM seedStack (m, 0)
  report .debug ("Seeded " ++ toString applied ++ " stack(s)")
  return seeded

def ofSource (o : Options) (source : σ) : Live (Interpreter σ) := do
  let options ← validate o
  return { options, vocabulary := .ofMachine (Interpreter.freshMachine options), source }

def trippedText (m : Machine X) : String :=
  "Fuse tripped after " ++ toString m.executed ++ " instruction(s) at position "
    ++ toString m.cursor.position

variable [Host X] [RandomSource σ]

/-- The loop of a run, which tells of the fuse where it stops. -/
def loop (fuse : Nat) (m : Machine X) (source : σ) : Live (Machine X × σ) :=
  match _h : m.cursor.current? with
  | none => return (m, source)
  | some i =>
    if i.command = .noop then loop fuse m.pass source
    else if fuse < (m.turn i source).1.executed then do
      report .debug (trippedText (m.turn i source).1)
      return m.turn i source
    else loop fuse (m.turn i source).1 (m.turn i source).2
termination_by m.remaining fuse
decreasing_by
  · exact Machine.remaining_pass_lt fuse _h
  · exact Machine.remaining_turn_lt ‹_›

/-- Runs a program on a machine that is filled already. -/
def runOn (m : Machine Empty) (i : Interpreter σ) (program : Program) :
    Live (Machine Empty × Interpreter σ) := do
  report .debug ("Running " ++ toString program.size ++ " instruction(s)")
  let (m, source) ← loop i.fuse (m.moveCursor fun _ => .load program) i.source
  report .debug ("Run finished after " ++ toString m.executed ++ " instruction(s)")
  return (m, { i with source })

def execute (i : Interpreter σ) (program : Program) (state : Option Snapshot) :
    Live (Machine Empty × Interpreter σ) := do
  match state with
  | some state => runOn (← seed (Interpreter.freshMachine i.options) state) i program
  | none => runOn (Interpreter.freshMachine i.options) i program

end

/-! Each operation does the same as the function that collects the messages. -/
section
variable {X σ : Type}

theorem validate_eq (o : Options) : validate o = ofLogged o.validate := by
  unfold validate Options.validate
  simp only [ofLogged_bind]

theorem ofToml_eq (text : String) : ofToml text = ofLogged (.ofExcept (Options.ofToml text)) := by
  unfold ofToml Options.ofToml
  cases Options.parse? text with
  | none => rw [Logged.ofExcept, ofLogged_pure]
  | some o => simp only [Logged.ofExcept, validate_eq, ofLogged_bind, ofLogged_pure]

theorem load_eq (describe : String → String) (path : String) (content : Option ByteArray) :
    load describe path content = ofLogged (.ofExcept (Options.load describe path content)) := by
  unfold load Options.load
  cases content.bind String.fromUTF8? with
  | none => rw [Logged.ofExcept, ofLogged_pure]
  | some text =>
    cases hparse : Options.parse? text with
    | none => simp [Logged.ofExcept, validate_eq, ofLogged_bind, ofLogged_tell, ofLogged_pure, hparse]
    | some o => simp [Logged.ofExcept, validate_eq, ofLogged_bind, ofLogged_pure, hparse]

theorem ofSource_eq (o : Options) (source : σ) :
    ofSource o source = ofLogged (Interpreter.ofSource o source) := by
  unfold ofSource Interpreter.ofSource
  simp only [validate_eq, ofLogged_bind, ofLogged_pure]

theorem foldl_readToken (v : Vocabulary) (tokens : List String) (program : Program)
    (dropped : Nat) :
    tokens.foldl (readToken v) (program, dropped) =
      (program ++ (v.instructions tokens).toArray, dropped + v.dropped tokens) := by
  induction tokens generalizing program dropped with
  | nil => simp [Vocabulary.instructions, Vocabulary.dropped]
  | cons token tokens ih =>
    cases hi : v.instruction? token with
    | none =>
      have hstep : readToken v (program, dropped) token = (program, dropped + 1) := by
        simp [readToken, hi]
      rw [List.foldl_cons, hstep, ih]
      simp [Vocabulary.instructions, Vocabulary.dropped, hi]
      omega
    | some i =>
      have hstep : readToken v (program, dropped) token = (program.push i, dropped) := by
        simp [readToken, hi]
      rw [List.foldl_cons, hstep, ih]
      simp [Vocabulary.instructions, Vocabulary.dropped, hi]

theorem readTokens_eq (v : Vocabulary) (tokens : List String) :
    readTokens v tokens = ofLogged (v.readTokens tokens) := by
  unfold readTokens Vocabulary.readTokens
  rw [foldl_readToken]
  by_cases hdropped : 0 < v.dropped tokens
  · simp [ofLogged_bind, ofLogged_pure, ofLogged_tellIf, hdropped]
  · simp [ofLogged_bind, ofLogged_pure, ofLogged_tellIf, hdropped]

theorem seedStack_eq (m : Machine X) (applied : Nat) (entry : String × List Element) :
    seedStack (m, applied) entry = ofLogged (m.seedStack entry) >>= fun seeded =>
      pure (seeded, applied + if m.memory.contains entry.1 then 1 else 0) := by
  unfold seedStack Machine.seedStack NameMap.contains
  cases ht : m.memory.get? entry.1 with
  | none => simp [ofLogged_bind, ofLogged_pure]
  | some t => simp [ofLogged_bind, ofLogged_pure]

theorem contains_seedStack (m : Machine X) (entry : String × List Element) :
    (m.seedStack entry).value.memory.contains = m.memory.contains := by
  funext name
  have hlayout := Memory.get?_layout (m.seedStack entry).value.memory name
  rw [m.layout_seedStack entry, Memory.get?_layout] at hlayout
  have hsome := congrArg Option.isSome hlayout
  rw [Option.isSome_map, Option.isSome_map] at hsome
  exact hsome.symm

/-- The entries that were counted on the way are those whose stacks existed from the start. -/
theorem foldlM_seedStack (entries : List (String × List Element)) (m : Machine X) (applied : Nat) :
    entries.foldlM seedStack (m, applied) =
      ofLogged (entries.foldlM Machine.seedStack m) >>= fun seeded =>
        pure (seeded, applied + (entries.map (·.1)).countP m.memory.contains) := by
  induction entries generalizing m applied with
  | nil => simp [ofLogged_pure]
  | cons entry entries ih =>
    rw [List.foldlM_cons, List.foldlM_cons, seedStack_eq, ofLogged_bind, bind_assoc, bind_assoc]
    apply bind_congr_value
    rw [pure_bind, ih, contains_seedStack]
    simp only [List.map_cons, List.countP_cons, Nat.add_assoc, Nat.add_comm]

theorem seed_eq (m : Machine X) (state : Snapshot) : seed m state = ofLogged (m.seed state) := by
  unfold seed Machine.seed
  rw [foldlM_seedStack]
  simp [ofLogged_bind, ofLogged_pure, ofLogged_tell, NameMap.names]

variable [Host X] [RandomSource σ]

theorem loop_of_current? {fuse : Nat} {m : Machine X} {source : σ} {i : Instruction}
    (hc : m.cursor.current? = some i) :
    loop fuse m source =
      if i.command = .noop then loop fuse m.pass source
      else if fuse < (m.turn i source).1.executed then do
        report .debug (trippedText (m.turn i source).1)
        return m.turn i source
      else loop fuse (m.turn i source).1 (m.turn i source).2 := by
  rw [loop]
  split
  · rename_i hnone
    rw [hc] at hnone
    cases hnone
  · rename_i j hj
    obtain rfl : i = j := Option.some.inj (hc.symm.trans hj)
    rfl

/-- A run that starts within its fuse trips it in its last turn or not at all. -/
theorem loop_eq {fuse : Nat} {m : Machine X} (source : σ) (h : m.executed ≤ fuse) :
    loop fuse m source = ofLogged do
      let next := m.run fuse source
      .tellIf (fuse < next.1.executed) .debug (trippedText next.1)
      return next := by
  -- The fuse is looked at after turns only: what is above it at the start would not be told.
  fun_induction Machine.run fuse m source with
  | case1 m source hc =>
    have hwithin : ¬fuse < m.executed := Nat.not_lt.mpr h
    have hloop : loop fuse m source = pure (m, source) := by
      rw [loop]
      split
      · rfl
      · simp_all
    simp [hloop, ofLogged_bind, ofLogged_pure, ofLogged_tellIf, hwithin]
  | case2 m source i hc hi ih =>
    rw [loop_of_current? hc, if_pos hi]
    exact ih h
  | case3 m source i hc hi next hf =>
    rw [loop_of_current? hc, if_neg hi, if_pos hf]
    simp [ofLogged_bind, ofLogged_pure, ofLogged_tellIf, hf, next]
  | case4 m source i hc hi next hf ih =>
    rw [loop_of_current? hc, if_neg hi, if_neg hf]
    exact ih (Nat.not_lt.mp hf)

theorem runOn_eq {m : Machine Empty} {i : Interpreter σ} (program : Program)
    (h : m.executed ≤ i.fuse) :
    runOn m i program = ofLogged do
      Logged.tell .debug ("Running " ++ toString program.size ++ " instruction(s)")
      let next := (m.moveCursor fun _ => .load program).run i.fuse i.source
      Logged.tellIf (i.fuse < next.1.executed) .debug (trippedText next.1)
      Logged.tell .debug ("Run finished after " ++ toString next.1.executed ++ " instruction(s)")
      return (next.1, { i with source := next.2 }) := by
  have hloaded : (m.moveCursor fun _ => .load program).executed ≤ i.fuse := h
  unfold runOn
  rw [loop_eq i.source hloaded]
  simp only [ofLogged_bind, ofLogged_tell, ofLogged_pure, bind_assoc, pure_bind]

theorem execute_eq (i : Interpreter σ) (program : Program) (state : Option Snapshot) :
    execute i program state = ofLogged (i.execute program state) := by
  cases state with
  | none => exact runOn_eq program (Nat.zero_le _)
  | some state =>
    have hseeded : ((Interpreter.freshMachine i.options).seed state).value.executed ≤ i.fuse := by
      rw [Machine.executed_seed]
      exact Nat.zero_le _
    have hexecute : execute i program (some state) =
        seed (Interpreter.freshMachine i.options) state >>= (runOn · i program) := rfl
    rw [hexecute, seed_eq, Interpreter.execute, ofLogged_bind]
    apply bind_congr_value
    exact runOn_eq program hseeded

end
end Live

/-- The operations that log. -/
inductive Request : Type → Type 1 where
  | validate (o : Options) : Request Options
  | ofToml (text : String) : Request (Except Options.Fault Options)
  | load (describe : String → String) (path : String) (content : Option ByteArray) :
      Request (Except Options.Fault Options)
  | interpreter {σ : Type} (o : Options) (source : σ) : Request (Interpreter σ)
  | read (v : Vocabulary) (text : String) : Request Program
  | readTokens (v : Vocabulary) (tokens : List String) : Request Program
  | seed {X : Type} (m : Machine X) (state : Snapshot) : Request (Machine X)
  | execute {σ : Type} [RandomSource σ] (i : Interpreter σ) (program : Program)
      (state : Option Snapshot) : Request (Machine Empty × Interpreter σ)
  | run {σ : Type} [RandomSource σ] (i : Interpreter σ) (text : String) :
      Request (Machine Empty × Interpreter σ)
  | runCode {σ : Type} [RandomSource σ] (i : Interpreter σ) (code : Code) :
      Request (Machine Empty × Interpreter σ)
  | runWithState {σ : Type} [RandomSource σ] (i : Interpreter σ) (text : String)
      (state : Snapshot) : Request (Machine Empty × Interpreter σ)

namespace Request
variable {α : Type}

def logged : {α : Type} → Request α → Logged α
  | _, validate o => o.validate
  | _, ofToml text => .ofExcept (Options.ofToml text)
  | _, load describe path content => .ofExcept (Options.load describe path content)
  | _, interpreter o source => Interpreter.ofSource o source
  | _, read v text => v.read text
  | _, readTokens v tokens => v.readTokens tokens
  | _, seed m state => m.seed state
  | _, execute i program state => i.execute program state
  | _, run i text => i.run text
  | _, runCode i code => i.runCode code
  | _, runWithState i text state => i.runWithState text state

def live : {α : Type} → Request α → Live α
  | _, validate o => Live.validate o
  | _, ofToml text => Live.ofToml text
  | _, load describe path content => Live.load describe path content
  | _, interpreter o source => Live.ofSource o source
  | _, read v text => Live.readTokens v (Text.words text)
  | _, readTokens v tokens => Live.readTokens v tokens
  | _, seed m state => Live.seed m state
  | _, execute i program state => Live.execute i program state
  | _, run i text => do Live.execute i (← Live.readTokens i.vocabulary (Text.words text)) none
  | _, runCode i code => do Live.execute i (← Live.readTokens i.vocabulary code.tokens) none
  | _, runWithState i text state => do
    Live.execute i (← Live.readTokens i.vocabulary (Text.words text)) (some state)

theorem live_eq (r : Request α) : r.live = Live.ofLogged r.logged := by
  cases r with
  | validate o => exact Live.validate_eq o
  | ofToml text => exact Live.ofToml_eq text
  | load describe path content => exact Live.load_eq describe path content
  | interpreter o source => exact Live.ofSource_eq o source
  | read v text => exact Live.readTokens_eq v _
  | readTokens v tokens => exact Live.readTokens_eq v tokens
  | seed m state => exact Live.seed_eq m state
  | execute i program state => exact Live.execute_eq i program state
  | run i text =>
    simp only [live, logged, Interpreter.run, Live.ofLogged_bind, Live.readTokens_eq,
      Live.execute_eq, Vocabulary.read]
  | runCode i code =>
    simp only [live, logged, Interpreter.runCode, Live.ofLogged_bind, Live.readTokens_eq,
      Live.execute_eq]
  | runWithState i text state =>
    simp only [live, logged, Interpreter.runWithState, Live.ofLogged_bind, Live.readTokens_eq,
      Live.execute_eq, Vocabulary.read]

end Request

/-- A sequence of operations, each of which may depend on the results of those before it. -/
inductive Session (α : Type) : Type 1 where
  | done (a : α)
  | request {β : Type} (r : Request β) (next : β → Session α)

namespace Session
variable {α : Type}

def logged : Session α → Logged α
  | done a => pure a
  | request r next => r.logged >>= fun b => (next b).logged

def live : Session α → Live α
  | done a => pure a
  | request r next => r.live >>= fun b => (next b).live

theorem live_eq (s : Session α) : s.live = Live.ofLogged s.logged := by
  induction s with
  | done a => exact (Live.ofLogged_pure a).symm
  | request r next ih =>
    simp only [live, logged, Live.ofLogged_bind, r.live_eq, ih]

/-- What a session comes to, and the messages that it sends through a channel, if the logger sends
there what passes a threshold. -/
def observe (s : Session α) (isOpen : Nat → Bool) (channel : Nat) (level : Severity) :
    α × List Message :=
  let (a, emissions) := s.live ⟨{ destination := .channel channel, level }, isOpen⟩ []
  (a, Logger.sentTo channel emissions)

theorem observe_eq (s : Session α) (isOpen : Nat → Bool) (channel : Nat) (level : Severity) :
    s.observe isOpen channel level = (s.logged.value,
      s.logged.messages.filter fun m => m.severity.passes level && isOpen channel) := by
  unfold observe
  rw [s.live_eq, Live.run_ofLogged]
  exact congrArg (s.logged.value, ·) (Outlet.sentTo_emissions isOpen channel level _)

/-- The threshold of the logger has no part in the results of a session. It selects, in their order,
those of the messages that are severe enough; at the last threshold a receiver gets them all. -/
theorem observe_threshold (s : Session α) (isOpen : Nat → Bool) (channel : Nat)
    (level : Severity) :
    (s.observe isOpen channel level).1 = (s.observe isOpen channel .debug).1 ∧
    (s.observe isOpen channel level).2 =
      (s.observe isOpen channel .debug).2.filter (·.severity.passes level) ∧
    (s.observe isOpen channel level).1 = s.logged.value ∧
    (s.observe (fun _ => true) channel .debug).2 = s.logged.messages := by
  have hdebug (m : Message) : m.severity.passes .debug = true := by
    cases m.severity <;> rfl
  refine ⟨?_, ?_, ?_, ?_⟩
  · rw [observe_eq, observe_eq]
  · rw [observe_eq, observe_eq, List.filter_filter]
    simp only [hdebug, Bool.true_and]
  · rw [observe_eq]
  · rw [observe_eq]
    simp [hdebug]

/-- A repaired option and a word that means nothing, seen at two thresholds. -/
example :
    let s : Session Program := .request (.validate { kinds := [.integer, .integer] }) fun o =>
      .request (.readTokens (.ofMachine (Interpreter.freshMachine o)) ["1", "float.dup"]) .done
    let warning : Message := ⟨.warn, "Removed 1 duplicate stack kind(s). Using: [Integer]"⟩
    (s.observe (fun _ => true) 3 .warn).2 = [warning] ∧
    (s.observe (fun _ => true) 3 .debug).2 =
      [warning, ⟨.debug, "Parser dropped 1 unrecognized token(s)"⟩] := by
  decide +kernel

end Session
end StackMachine
