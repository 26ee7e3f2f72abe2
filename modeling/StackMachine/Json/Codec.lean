import StackMachine.Code
import StackMachine.Instruction
import StackMachine.Json.Reader
import StackMachine.Log
import StackMachine.Machine

/-! The JSON forms of elements, snapshots, instructions, code and messages. -/
namespace StackMachine

namespace Kind

def toJson (k : Kind) : Json := .string k.name

def ofJson : Json.Reader Kind :=
  Json.tagged fun name => (ofName? name).map .nothing

end Kind

namespace Severity

def toJson (s : Severity) : Json := .string s.name

def ofJson : Json.Reader Severity :=
  Json.tagged fun name => (ofName? name).map .nothing

end Severity

namespace Element

/-- The name of a float that is no finite number. -/
def nonFiniteName (x : Float) : String :=
  if x.isNaN then "nan" else if 0.0 < x then "inf" else "-inf"

/-- The float of a name. -/
def nonFinite? (name : String) : Option Float :=
  if name = "inf" then some (1.0 / 0.0)
  else if name = "-inf" then some (-(1.0 / 0.0))
  else if name = "nan" then some (0.0 / 0.0)
  else none

/-- Numbers and truth values stand for themselves, floats that are no finite numbers are written
by name. -/
def toJson : Element → Json
  | .integer value => .integer value.toInt
  | .float value => if value.isFinite then .float value else .string (nonFiniteName value)
  | .boolean value => .boolean value

/-- The description of the JSON values that are elements. -/
def expected : String := "an integer, a float, a boolean, \"inf\", \"-inf\" or \"nan\""

/-- The element that a JSON value stands for. -/
def ofFound : Json.Found → Except Json.Fault Element
  | .boolean value => .ok (.boolean value)
  | .integer value =>
    match Decimal.int64? value with
    | some n => .ok (.integer n)
    | none => .error (.wrongValue (.integer value) expected)
  | .float value => .ok (.float value)
  | .string name =>
    match nonFinite? name with
    | some x => .ok (.float x)
    | none => .error (.wrongValue (.string name) expected)
  | found => .error (.wrongType found expected)

def ofJson : Json.Reader Element := fun cs => do
  let (found, rest) ← Json.look cs
  return (← ofFound found, rest)

end Element

namespace Snapshot

/-- An object with the elements of every stack. -/
def toJson (s : Snapshot) : Json :=
  .object (s.entries.map fun (name, elements) => (name, .array (elements.map Element.toJson)))

/-- Reads an object of sequences of elements; the last sequence of a name wins. -/
def ofJson : Json.Reader Snapshot := fun cs => do
  let (entries, rest) ← Json.mapping (Json.sequence Element.ofJson) cs
  return (.ofList entries, rest)

/-- The text of a snapshot. -/
def text (s : Snapshot) : String := (toJson s).text

/-- The snapshot of a text. -/
def ofText (text : String) : Except Json.Fault Snapshot := Json.read ofJson text

end Snapshot

namespace Command

def toJson : Command → Json
  | .literal kind => .object [("Literal", kind.toJson)]
  | .call stack function =>
    .object [("Call", .object [("stack", .string stack), ("function", .string function)])]
  | .cursor verb => .object [("Cursor", .string verb)]
  | .noop => .string "Noop"

/-- The fields of a call that were read so far. -/
structure CallFields where
  stack : Option String := none
  function : Option String := none

/-- The reader of the part of a call of a name. -/
def callMember (name : String) (f : CallFields) : Except Json.Fault (Json.Reader CallFields) :=
  if name = "stack" then
    Json.field name f.stack Json.readString fun s => { f with stack := some s }
  else if name = "function" then
    Json.field name f.function Json.readString fun s => { f with function := some s }
  else .ok (Json.ignore f)

/-- The stack and the function of a call, by name or in this order. -/
def callOfJson : Json.Reader Command := fun cs =>
  match Json.skipBlanks cs with
  | '[' :: cs => do
    let (stack, cs) ← Json.positional 0 Json.readString cs
    let (function, cs) ← Json.positional 1 Json.readString cs
    Json.closeSequence (.call stack function) cs
  | '\x7b' :: cs => do
    let (f, rest) ← Json.members callMember {} cs
    return (.call (← Json.require "stack" f.stack) (← Json.require "function" f.function), rest)
  | cs => Json.refuse "a call" cs

/-- What the variants of a command carry. -/
def variant? (name : String) : Option (Json.Payload Command) :=
  if name = "Literal" then
    some (.content fun cs => (Kind.ofJson cs).map fun (k, rest) => (.literal k, rest))
  else if name = "Call" then some (.content callOfJson)
  else if name = "Cursor" then
    some (.content fun cs => (Json.readString cs).map fun (s, rest) => (.cursor s, rest))
  else if name = "Noop" then some (.nothing .noop)
  else none

def ofJson : Json.Reader Command := Json.tagged variant?

end Command

namespace Instruction

def toJson (i : Instruction) : Json :=
  .object [("kind", i.command.toJson), ("token", .string i.token), ("runs", .integer i.runs.toNat)]

/-- The fields of an instruction that were read so far. -/
structure Fields where
  command : Option Command := none
  token : Option String := none
  runs : Option UInt64 := none

/-- The reader of the field of a name. -/
def member (name : String) (f : Fields) : Except Json.Fault (Json.Reader Fields) :=
  if name = "kind" then
    Json.field name f.command Command.ofJson fun c => { f with command := some c }
  else if name = "token" then
    Json.field name f.token Json.readString fun s => { f with token := some s }
  else if name = "runs" then
    Json.field name f.runs Json.readUnsigned fun n => { f with runs := some n }
  else .ok (Json.ignore f)

/-- The instruction of a complete set of fields. -/
def ofFields (f : Fields) : Except Json.Fault Instruction := do
  return {
    command := ← Json.require "kind" f.command
    token := ← Json.require "token" f.token
    runs := ← Json.require "runs" f.runs }

/-- Reads an instruction from its fields in any order, other members being ignored, or from a
sequence of the fields in this order. -/
def ofJson : Json.Reader Instruction := fun cs =>
  match Json.skipBlanks cs with
  | '[' :: cs => do
    let (command, cs) ← Json.positional 0 Command.ofJson cs
    let (token, cs) ← Json.positional 1 Json.readString cs
    let (runs, cs) ← Json.positional 2 Json.readUnsigned cs
    Json.closeSequence { command, token, runs } cs
  | '\x7b' :: cs => do
    let (f, rest) ← Json.members member {} cs
    return (← ofFields f, rest)
  | cs => Json.refuse "an instruction" cs

def text (i : Instruction) : String := i.toJson.text

def ofText (text : String) : Except Json.Fault Instruction := Json.read ofJson text

end Instruction

namespace Code

def toJson (c : Code) : Json := .array (c.tokens.map .string)

def ofJson : Json.Reader Code := fun cs =>
  (Json.sequence Json.readString cs).map fun (tokens, rest) => (⟨tokens⟩, rest)

end Code

namespace Message

def toJson (m : Message) : Json :=
  .object [("level", m.severity.toJson), ("msg", .string m.content)]

/-- The fields of a message that were read so far. -/
structure Fields where
  severity : Option Severity := none
  content : Option String := none

/-- The reader of the field of a name. -/
def member (name : String) (f : Fields) : Except Json.Fault (Json.Reader Fields) :=
  if name = "level" then
    Json.field name f.severity Severity.ofJson fun s => { f with severity := some s }
  else if name = "msg" then
    Json.field name f.content Json.readString fun s => { f with content := some s }
  else .ok (Json.ignore f)

/-- Reads a message from its fields in any order, other members being ignored, or from a sequence
of the fields in this order. -/
def ofJson : Json.Reader Message := fun cs =>
  match Json.skipBlanks cs with
  | '[' :: cs => do
    let (severity, cs) ← Json.positional 0 Severity.ofJson cs
    let (content, cs) ← Json.positional 1 Json.readString cs
    Json.closeSequence { severity, content } cs
  | '\x7b' :: cs => do
    let (f, rest) ← Json.members member {} cs
    return ({
      severity := ← Json.require "level" f.severity
      content := ← Json.require "msg" f.content }, rest)
  | cs => Json.refuse "a message" cs

end Message
end StackMachine
