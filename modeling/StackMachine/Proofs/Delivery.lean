import StackMachine.Logger

/-! What a logger delivers. The destination and the threshold of a moment are those that were set
last before it, so what a channel receives can be read off the history of the logger alone. -/
namespace StackMachine.Logger

namespace Action

def destination? : Action → Option Destination
  | .redirect destination => some destination
  | _ => none

def level? : Action → Option Severity
  | .setLevel level => some level
  | _ => none

def message? : Action → Option Message
  | .log message => some message
  | _ => none

end Action

/-- The destination that a history of actions set last. -/
def destinationAfter (l : Logger) (history : List Action) : Destination :=
  (history.filterMap Action.destination?).getLast?.getD l.destination

/-- The threshold that a history of actions set last. -/
def levelAfter (l : Logger) (history : List Action) : Severity :=
  (history.filterMap Action.level?).getLast?.getD l.level

/-- The messages that were logged while a channel was the destination, and were severe enough for
the threshold at that time, in the order in which they were logged. -/
def due (l : Logger) (id : Nat) (actions : List Action) : List Message :=
  (List.range actions.length).filterMap fun n => do
    let m ← (← actions[n]?).message?
    let before := actions.take n
    if l.destinationAfter before = .channel id ∧ m.severity.rank ≤ (l.levelAfter before).rank then
      return m
    else none

variable (isOpen : Nat → Bool) (l : Logger)

theorem run_cons (a : Action) (actions : List Action) :
    l.run isOpen (a :: actions) = (((l.act isOpen a).1.run isOpen actions).1,
      (l.act isOpen a).2.toList ++ ((l.act isOpen a).1.run isOpen actions).2) :=
  rfl

theorem run_append (before after : List Action) :
    l.run isOpen (before ++ after) = (((l.run isOpen before).1.run isOpen after).1,
      (l.run isOpen before).2 ++ ((l.run isOpen before).1.run isOpen after).2) := by
  induction before generalizing l with
  | nil => rfl
  | cons a before ih => simp only [List.cons_append, run_cons, ih, List.append_assoc]

/-- One action sets what it names and leaves the rest. -/
theorem act_fst (a : Action) :
    (l.act isOpen a).1 = ⟨a.destination?.getD l.destination, a.level?.getD l.level⟩ := by
  cases a <;> rfl

theorem getLast?_filterMap_cons {α β : Type} (f : α → Option β) (a : α) (as : List α) (start : β) :
    ((a :: as).filterMap f).getLast?.getD start =
      (as.filterMap f).getLast?.getD ((f a).getD start) := by
  cases hf : f a with
  | none => rw [List.filterMap_cons_none hf, Option.getD_none]
  | some b =>
    rw [List.filterMap_cons_some hf, List.getLast?_cons, Option.getD_some, Option.getD_some]

/-- The logger after a history has what was set last. -/
theorem run_fst (history : List Action) :
    (l.run isOpen history).1 = ⟨l.destinationAfter history, l.levelAfter history⟩ := by
  induction history generalizing l with
  | nil => rfl
  | cons a history ih =>
    rw [run_cons, ih]
    unfold destinationAfter levelAfter
    rw [getLast?_filterMap_cons, getLast?_filterMap_cons, act_fst]

/-- What the logger of a moment makes of the action of that moment. -/
def emissionAt? (actions : List Action) (n : Nat) : Option Emission :=
  actions[n]?.bind fun a => ((l.run isOpen (actions.take n)).1.act isOpen a).2

theorem run_snd (actions : List Action) :
    (l.run isOpen actions).2 =
      (List.range actions.length).filterMap (l.emissionAt? isOpen actions) := by
  induction actions generalizing l with
  | nil => rfl
  | cons a actions ih =>
    have hlater : l.emissionAt? isOpen (a :: actions) ∘ Nat.succ =
        (l.act isOpen a).1.emissionAt? isOpen actions := rfl
    rw [run_cons, ih, List.length_cons, List.range_succ_eq_map]
    cases hact : (l.act isOpen a).2 with
    | none =>
      have hfirst : l.emissionAt? isOpen (a :: actions) 0 = none := hact
      rw [List.filterMap_cons_none hfirst, List.filterMap_map, hlater]
      rfl
    | some e =>
      have hfirst : l.emissionAt? isOpen (a :: actions) 0 = some e := hact
      rw [List.filterMap_cons_some hfirst, List.filterMap_map, hlater]
      rfl

/-- The message that an emission takes to a channel. -/
def messageFor? (id : Nat) : Emission → Option Message
  | .sent channel message => if channel = id then some message else none
  | _ => none

/-- Of one action, a channel gets the message that is logged if the channel is the destination, the
message is severe enough, and there is a receiver. -/
theorem messageFor?_act (id : Nat) (a : Action) :
    (l.act isOpen a).2.bind (messageFor? id) = if isOpen id then a.message?.bind fun m =>
      if l.destination = .channel id ∧ m.severity.rank ≤ l.level.rank then some m else none
      else none := by
  cases a with
  | redirect destination => simp [act, Action.message?]
  | setLevel level => simp [act, Action.message?]
  | log m =>
    show (l.emit? isOpen m).bind (messageFor? id) = if isOpen id then
      if l.destination = .channel id ∧ m.severity.rank ≤ l.level.rank then some m else none
      else none
    unfold emit? Severity.passes
    by_cases hlevel : m.severity.rank ≤ l.level.rank
    · cases l.destination with
      | terminal =>
        by_cases herror : m.severity.rank ≤ Severity.error.rank
        · simp [hlevel, herror, messageFor?]
        · simp [hlevel, herror, messageFor?]
      | nowhere => simp [hlevel]
      | channel current =>
        by_cases hid : current = id
        · subst hid
          cases hopen : isOpen current <;> simp [hlevel, hopen, messageFor?]
        · cases hopen : isOpen current <;> simp [hlevel, hopen, hid, messageFor?]
    · simp [hlevel]

theorem sentTo_run (id : Nat) (actions : List Action) :
    sentTo id (l.run isOpen actions).2 = if isOpen id then l.due id actions else [] := by
  have hat (n : Nat) : (l.emissionAt? isOpen actions n).bind (messageFor? id) =
      if isOpen id then actions[n]?.bind fun a => a.message?.bind fun m =>
        if l.destinationAfter (actions.take n) = .channel id ∧
          m.severity.rank ≤ (l.levelAfter (actions.take n)).rank then some m else none
      else none := by
    unfold emissionAt?
    rw [Option.bind_assoc, run_fst]
    simp only [messageFor?_act]
    cases isOpen id <;> simp
  calc sentTo id (l.run isOpen actions).2
    _ = (List.range actions.length).filterMap fun n =>
          (l.emissionAt? isOpen actions n).bind (messageFor? id) := by
        rw [run_snd]
        exact List.filterMap_filterMap
    _ = if isOpen id then l.due id actions else [] := by
        simp only [hat]
        cases isOpen id with
        | false => simp
        | true => rfl

/-- A logger is enabled for a severity exactly if a message of it is emitted. -/
theorem isSome_emit? (s : Severity) (content : String) :
    (l.emit? isOpen ⟨s, content⟩).isSome = l.enabled s := by
  unfold emit? enabled
  by_cases hlevel : s.passes l.level = true
  · cases l.destination with
    | terminal => by_cases herror : s.passes .error = true <;> simp [hlevel, herror]
    | nowhere => simp [hlevel]
    | channel id => by_cases hopen : isOpen id = true <;> simp [hlevel, hopen]
  · simp [hlevel]

/-- A channel that has a receiver gets exactly what is due to it, and at every moment a logger is
enabled for a severity exactly if logging a message of it would emit something. -/
theorem run_delivers (destination : Destination) (actions : List Action) :
    let fresh : Logger := { destination }
    let now := (fresh.run isOpen actions).1
    let emissions := (fresh.run isOpen actions).2
    (∀ id, sentTo id emissions = if isOpen id then fresh.due id actions else []) ∧
    ∀ s content,
      let next := (fresh.run isOpen (actions ++ [.log ⟨s, content⟩])).2
      (now.enabled s = true ↔ ∃ e, next = emissions ++ [e]) ∧
      (now.enabled s = false ↔ next = emissions) := by
  intro fresh now emissions
  refine ⟨fun id => fresh.sentTo_run isOpen id actions, ?_⟩
  intro s content next
  have hnext : next = emissions ++ (now.emit? isOpen ⟨s, content⟩).toList := by
    show (fresh.run isOpen (actions ++ [.log ⟨s, content⟩])).2 = _
    rw [run_append, run_cons, ← List.append_assoc]
    exact List.append_nil _
  rw [hnext, ← now.isSome_emit? isOpen s content]
  cases now.emit? isOpen ⟨s, content⟩ with
  | none => simp
  | some e => simp

/-- Two channels in turn, and a threshold that rises in between. -/
example :
    let m (s : Severity) (content : String) : Action := .log ⟨s, content⟩
    let actions : List Action :=
      [m .error "a", .redirect (.channel 4), m .info "b", m .warn "c", .setLevel .error,
        m .warn "d", .redirect (.channel 7), m .fatal "e", .redirect (.channel 4), m .error "f"]
    let emissions := (({} : Logger).run (fun _ => true) actions).2
    sentTo 4 emissions = [⟨.warn, "c"⟩, ⟨.error, "f"⟩] ∧ sentTo 7 emissions = [⟨.fatal, "e"⟩] := by
  decide

end StackMachine.Logger
