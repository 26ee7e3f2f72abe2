import StackMachine.Options
import StackMachine.Toml.Reader

/-! Options as TOML documents. Assumed of the library that writes them: a key a line in the order of
the fields, nothing for an absent one, no integer of more than 63 bits, and floats with the fewest
digits that tell them apart, in the layout of `floatLayout`; of the one that reads them, that a key
is found wherever it stands, that a missing one takes its default and unknown ones are ignored. -/
namespace StackMachine
open Toml (Node Entries)

/-- Whether a node holds nothing. -/
def Toml.Node.isEmpty : Node → Bool
  | .array items => items.isEmpty
  | .table _ entries => entries.isEmpty
  | .tables blocks => blocks.isEmpty
  | _ => false

/-- A kind by its name, or as the only key of a table, which then holds nothing. -/
def Kind.ofNode? : Node → Option Kind
  | .string name => ofName? name
  | .table _ [(name, content)] => if content.isEmpty then ofName? name else none
  | _ => none

namespace Options

/-- Why options cannot be had or kept. -/
inductive Fault where
  | unparsable
  | unprintable
  | unreadable (path : String)
  | unwritable (path : String)
deriving DecidableEq, Repr

def Fault.message : Fault → String
  | .unparsable => "Failed to parse options"
  | .unprintable => "Failed to serialize options"
  | .unreadable path => "Failed to read options file " ++ path
  | .unwritable path => "Failed to write options file " ++ path

/-- An integer that is not negative. -/
def unsigned? : Node → Option UInt64
  | .integer n => if 0 ≤ n.toInt then some (UInt64.ofNat n.toInt.toNat) else none
  | _ => none

/-- A list of kinds. -/
def kinds? : Node → Option (List Kind)
  | .array items => items.mapM Kind.ofNode?
  | .tables blocks => blocks.mapM fun entries => Kind.ofNode? (.table .header entries)
  | _ => none

/-- A float, or an integer as a float. -/
def float? : Node → Option Float
  | .float x => some x
  | .integer n => some (Arithmetic.floatOfInteger n)
  | _ => none

/-- The value of a key, or the default if the key is missing. -/
def lookup? {α : Type} (t : Entries) (key : String) (read? : Node → Option α) (default : α) :
    Option α :=
  match t.get? key with
  | some node => read? node
  | none => some default

/-- The options of a table. Missing keys take their defaults, unknown keys are ignored. -/
def ofEntries? (t : Entries) : Option Options := do
  let default : Options := {}
  return {
    maxInstructions := ← lookup? t "max_instructions" unsigned? default.maxInstructions
    kinds := ← lookup? t "stacks" kinds? default.kinds
    seed := ← lookup? t "seed" (fun node => (unsigned? node).map some) default.seed
    literalProbability := ← lookup? t "literal_probability" float? default.literalProbability }

/-- The options that a document states, as they stand. -/
def parse? (text : String) : Option Options := (Toml.parse? text).bind ofEntries?

/-- Reads and validates options. -/
def ofToml (text : String) : Except Fault (Logged Options) :=
  match parse? text with
  | some o => .ok o.validate
  | none => .error .unparsable

/-- Floats in documents: never an exponent, and a fraction on whole values. -/
def floatLayout : Decimal.Layout :=
  { tie := .up, least := none, greatest := none, fraction := true, plus := false
    nan := "nan", infinity := "inf" }

/-- A list of quoted names: on one line if there is at most one, else on a line each. -/
def listText (names : List String) : String :=
  match names with
  | [] => "[]"
  | [name] => "[\"" ++ name ++ "\"]"
  | names => "[\n" ++ String.join (names.map fun name => "    \"" ++ name ++ "\",\n") ++ "]"

/-- A line that gives a key a value. -/
def line (key value : String) : String := key ++ " = " ++ value ++ "\n"

/-- Whether a document can hold an integer. -/
def isPrintable (n : UInt64) : Bool := (n.toNat : Int) ≤ Int64.maxValue.toInt

/-- The document of options. Integers of more than 63 bits have none. -/
def toToml (o : Options) : Except Fault String :=
  if isPrintable o.maxInstructions && o.seed.all isPrintable then
    .ok (line "max_instructions" (toString o.maxInstructions.toNat)
      ++ line "stacks" (listText (o.kinds.map Kind.name))
      ++ (match o.seed with
        | some seed => line "seed" (toString seed.toNat)
        | none => "")
      ++ line "literal_probability" (floatLayout.render o.literalProbability))
  else .error .unprintable

/-- The content of the file that options are saved to, if it can be written. -/
def save (o : Options) (path : String) (isWritable : Bool) : Except Fault ByteArray := do
  let text ← o.toToml
  if isWritable then return text.toUTF8 else throw (.unwritable path)

/-- Loads options from the content of a file, if there is one. A file that cannot be read is an
error, and one that is no proper document gives the defaults, with a description of what is wrong
with its text. -/
def load (describe : String → String) (path : String) (content : Option ByteArray) :
    Except Fault (Logged Options) :=
  match content.bind String.fromUTF8? with
  | none => .error (.unreadable path)
  | some text => .ok do
    match parse? text with
    | some o => o.validate
    | none =>
      Logged.tell .error (Fault.unparsable.message ++ ": " ++ describe text ++ ". Using defaults.")
      validate {}

end Options
end StackMachine
