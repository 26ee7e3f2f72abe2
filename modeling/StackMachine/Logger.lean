import StackMachine.Log

/-! A logger with a threshold and a destination that can change over time. -/
namespace StackMachine

/-- Where messages go. -/
inductive Destination where
  /-- To the terminal. -/
  | terminal
  /-- Through a numbered channel to the embedding program. -/
  | channel (id : Nat)
  /-- Nowhere. -/
  | nowhere
deriving DecidableEq, Repr

/-- What a logged message turns into. -/
inductive Emission where
  | output (line : String)
  | errorOutput (line : String)
  | sent (channel : Nat) (message : Message)
deriving DecidableEq, Repr

/-- A destination and the least severe level that gets through. -/
structure Logger where
  destination : Destination := .terminal
  level : Severity := .warn
deriving DecidableEq, Repr

namespace Logger

/-- Whether a message of this severity would be emitted now. -/
def enabled (l : Logger) (s : Severity) : Bool :=
  l.destination ≠ .nowhere && s.passes l.level

/-- The emission of a message. The terminal shows errors apart from the rest; a message that a
channel without a receiver cannot take is shown there too. -/
def emit? (l : Logger) (isOpen : Nat → Bool) (m : Message) : Option Emission :=
  if m.severity.passes l.level then
    match l.destination with
    | .terminal =>
      if m.severity.passes .error then some (.errorOutput m.text) else some (.output m.text)
    | .channel id =>
      if isOpen id then some (.sent id m)
      else some (.errorOutput ("Logger channel error: " ++ m.text))
    | .nowhere => none
  else none

/-- One use of a logger. -/
inductive Action where
  | redirect (destination : Destination)
  | setLevel (level : Severity)
  | log (message : Message)
deriving DecidableEq, Repr

/-- The logger after an action, and what the action emits. -/
def act (isOpen : Nat → Bool) (l : Logger) : Action → Logger × Option Emission
  | .redirect destination => ({ l with destination }, none)
  | .setLevel level => ({ l with level }, none)
  | .log message => (l, l.emit? isOpen message)

/-- The logger after a sequence of actions, and everything they emit in order. -/
def run (isOpen : Nat → Bool) (l : Logger) : List Action → Logger × List Emission
  | [] => (l, [])
  | a :: rest =>
    let (l, emission) := l.act isOpen a
    let (l, emissions) := l.run isOpen rest
    (l, emission.toList ++ emissions)

/-- The messages that went through a channel. -/
def sentTo (id : Nat) (emissions : List Emission) : List Message :=
  emissions.filterMap fun
    | .sent channel message => if channel = id then some message else none
    | _ => none

/-- What the embedding program receives of messages that are logged one after the other at a
threshold. -/
def received (level : Severity) (messages : List Message) : List Message :=
  let l : Logger := { destination := .channel 0, level }
  sentTo 0 (l.run (fun _ => true) (messages.map .log)).2

end Logger
end StackMachine
