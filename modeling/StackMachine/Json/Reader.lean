import StackMachine.Json
import StackMachine.Json.Number
import StackMachine.Text.Hex
import StackMachine.Text.Quoted

/-! Readers of JSON texts that know what they expect and stop at the first fault. Machines leave
reading to a JSON library; assumed of it is what these readers do. A number is an integer only if it
is written as one and fits 64 bits. A record is an object with its fields in any order, where a
field that comes twice is a fault and unknown ones are passed over at any depth, or a sequence of
its fields. Nothing but blanks follows a value. The position in the text that the library adds to a
message is left out. -/
namespace StackMachine.Json

/-- What stands in a text, seen as far as it takes to tell. -/
inductive Found where
  | null
  | boolean (value : Bool)
  | integer (value : Int)
  | float (value : Float)
  | string (value : String)
  | sequence
  | map
deriving DecidableEq, Repr

/-- Why a text is refused. -/
inductive Fault where
  /-- The text is not JSON, or a number in it is out of range. -/
  | malformed
  /-- A value of the wrong type. -/
  | wrongType (found : Found) (expected : String)
  /-- A value of the right type that is not one of those expected. -/
  | wrongValue (found : Found) (expected : String)
  | unknownVariant (name : String)
  | missingField (name : String)
  | duplicateField (name : String)
  /-- A sequence that ends too early. -/
  | tooShort (length : Nat)
deriving DecidableEq, Repr

/-- The description of what was found. -/
def Found.text : Found → String
  | .null => "null"
  | .boolean value => "boolean `" ++ (if value then "true" else "false") ++ "`"
  | .integer value => "integer `" ++ String.ofList (Decimal.integerChars value) ++ "`"
  | .float value => "floating point `" ++ floatLayout.render value ++ "`"
  | .string value => "string " ++ Text.quoted value
  | .sequence => "sequence"
  | .map => "map"

/-- The description of a fault. -/
def Fault.message : Fault → String
  | .malformed => "malformed text"
  | .wrongType found expected => "invalid type: " ++ found.text ++ ", expected " ++ expected
  | .wrongValue found expected => "invalid value: " ++ found.text ++ ", expected " ++ expected
  | .unknownVariant name => "unknown variant `" ++ name ++ "`"
  | .missingField name => "missing field `" ++ name ++ "`"
  | .duplicateField name => "duplicate field `" ++ name ++ "`"
  | .tooShort length => "invalid length " ++ toString length

/-- Reads something from the front of a text and returns the rest of the text. -/
abbrev Reader (α : Type) := List Char → Except Fault (α × List Char)

def isBlank (c : Char) : Bool := c = ' ' || c = '\t' || c = '\n' || c = '\r'

def skipBlanks (cs : List Char) : List Char := cs.dropWhile isBlank

/-- Takes a fixed word from the front of a text. -/
def word : List Char → List Char → Except Fault (List Char)
  | [], cs => .ok cs
  | _ :: _, [] => .error .malformed
  | w :: ws, c :: cs => if w = c then word ws cs else .error .malformed

/-- The value of four hexadecimal digits. -/
def hex4? (a b c d : Char) : Option Nat := Text.digitsIn? 16 [a, b, c, d]

/-- The character that an escape of one letter stands for. -/
def unescape? (c : Char) : Option Char :=
  if c = '"' || c = '\\' || c = '/' then some c
  else if c = 'b' then some '\x08'
  else if c = 'f' then some '\x0c'
  else if c = 'n' then some '\n'
  else if c = 'r' then some '\r'
  else if c = 't' then some '\t'
  else none

def isHighSurrogate (n : Nat) : Bool := 0xD800 ≤ n && n ≤ 0xDBFF

def isLowSurrogate (n : Nat) : Bool := 0xDC00 ≤ n && n ≤ 0xDFFF

/-- The character of two surrogates. -/
def combine (high low : Nat) : Char :=
  Char.ofNat (0x10000 + (high - 0xD800) * 0x400 + (low - 0xDC00))

/-- Puts a character in front of what a string reader reads. -/
def prepend (c : Char) (r : Except Fault (List Char × List Char)) :
    Except Fault (List Char × List Char) :=
  r.map fun (cs, rest) => (c :: cs, rest)

/-- The characters of a string up to its closing quote. Controls must be escaped, and surrogates
come in pairs. -/
def stringTail : Reader (List Char)
  | [] => .error .malformed
  | '"' :: rest => .ok ([], rest)
  | '\\' :: 'u' :: a :: b :: c :: d :: rest =>
    match hex4? a b c d with
    | none => .error .malformed
    | some n =>
      if isLowSurrogate n then .error .malformed
      else if isHighSurrogate n then
        match rest with
        | '\\' :: 'u' :: e :: f :: g :: h :: rest =>
          match hex4? e f g h with
          | none => .error .malformed
          | some low =>
            if isLowSurrogate low then prepend (combine n low) (stringTail rest)
            else .error .malformed
        | _ => .error .malformed
      else prepend (Char.ofNat n) (stringTail rest)
  | '\\' :: c :: rest =>
    match unescape? c with
    | some c => prepend c (stringTail rest)
    | none => .error .malformed
  | c :: rest =>
    if c.toNat < 0x20 || c = '\\' then .error .malformed else prepend c (stringTail rest)

/-- Passes over a string up to its closing quote; the characters that escapes name do not matter. -/
def skipString : List Char → Except Fault (List Char)
  | [] => .error .malformed
  | '"' :: rest => .ok rest
  | '\\' :: 'u' :: a :: b :: c :: d :: rest =>
    if (hex4? a b c d).isSome then skipString rest else .error .malformed
  | '\\' :: c :: rest => if (unescape? c).isSome then skipString rest else .error .malformed
  | c :: rest => if c.toNat < 0x20 || c = '\\' then .error .malformed else skipString rest

/-- Whole digits without a superfluous zero in front. -/
def wholeDigits : Reader (List Char) := fun cs =>
  match Decimal.spanDigits cs with
  | ([], _) => .error .malformed
  | ('0' :: _ :: _, _) => .error .malformed
  | (digits, rest) => .ok (digits, rest)

/-- The digits after a point, if there is one. -/
def fractionDigits : Reader (Option (List Char)) := fun cs =>
  match cs with
  | '.' :: cs =>
    match Decimal.spanDigits cs with
    | ([], _) => .error .malformed
    | (digits, rest) => .ok (some digits, rest)
  | cs => .ok (none, cs)

/-- The exponent, if there is one. -/
def exponentPart : Reader (Option Int) := fun cs =>
  match cs with
  | [] => .ok (none, [])
  | c :: cs =>
    if c = 'e' || c = 'E' then
      let (negative, digits) := Decimal.takeSign cs
      match Decimal.spanDigits digits with
      | ([], _) => .error .malformed
      | (digits, rest) =>
        let n : Int := Decimal.digitsValue digits
        .ok (some (if negative then -n else n), rest)
    else .ok (none, c :: cs)

/-- A number by its parts. -/
def numberParts : Reader NumberParts := fun cs => do
  let (negative, cs) := match cs with
    | '-' :: cs => (true, cs)
    | cs => (false, cs)
  let (whole, cs) ← wholeDigits cs
  let (fraction, cs) ← fractionDigits cs
  let (exponent, cs) ← exponentPart cs
  return (⟨negative, whole, fraction, exponent⟩, cs)

/-- What a number is: an integer if it is written as one and fits 64 bits, signed or not, else a
float. Negative zero is a float. -/
def NumberParts.found (p : NumberParts) : Except Fault Found :=
  let n := Decimal.digitsValue p.whole
  if p.isWhole && !p.negative && n < UInt64.size then .ok (.integer n)
  else if p.isWhole && p.negative && 0 < n && Int64.minValue.toInt ≤ -(n : Int) then
    .ok (.integer (-(n : Int)))
  else p.float?.elim (.error .malformed) fun x => .ok (.float x)

/-- Looks at a value: reads it if it is a scalar, and sees only the opening of anything else. -/
def look : Reader Found := fun cs =>
  match skipBlanks cs with
  | [] => .error .malformed
  | c :: cs =>
    if c = 'n' then do
      return (.null, ← word "ull".toList cs)
    else if c = 't' then do
      return (.boolean true, ← word "rue".toList cs)
    else if c = 'f' then do
      return (.boolean false, ← word "alse".toList cs)
    else if c = '"' then do
      let (s, rest) ← stringTail cs
      return (.string (String.ofList s), rest)
    else if c = '[' then .ok (.sequence, cs)
    else if c = '\x7b' then .ok (.map, cs)
    else if c = '-' || c.isDigit then do
      let (parts, rest) ← numberParts (c :: cs)
      return (← parts.found, rest)
    else .error .malformed

/-- Refuses whatever stands in the text as being of the wrong type. -/
def refuse {α : Type} (expected : String) : Reader α := fun cs => do
  let (found, _) ← look cs
  throw (.wrongType found expected)

/-- A string. -/
def readString : Reader String := fun cs => do
  match ← look cs with
  | (.string s, rest) => return (s, rest)
  | (found, _) => throw (.wrongType found "a string")

/-- An unsigned 64-bit integer. -/
def readUnsigned : Reader UInt64 := fun cs => do
  let expected := "an unsigned integer"
  match ← look cs with
  | (.integer n, rest) =>
    if 0 ≤ n then return (UInt64.ofNat n.toNat, rest) else throw (.wrongValue (.integer n) expected)
  | (found, _) => throw (.wrongType found expected)

/-- A null. -/
def readNull : Reader Unit := fun cs => do
  match ← look cs with
  | (.null, rest) => return ((), rest)
  | (found, _) => throw (.wrongType found "null")

/-- The start of the next item of a sequence, or nothing if the sequence closes. -/
def nextItem? (isFirst : Bool) (cs : List Char) : Except Fault (Option (List Char)) :=
  match skipBlanks cs with
  | [] => .error .malformed
  | c :: rest =>
    if c = ']' then .ok none
    else if isFirst then .ok (some (c :: rest))
    else if c = ',' then .ok (some rest)
    else .error .malformed

/-- The closing bracket of a sequence. -/
def closeSequence {α : Type} (a : α) : Reader α := fun cs =>
  match skipBlanks cs with
  | ']' :: rest => .ok (a, rest)
  | _ => .error .malformed

/-- The items of a sequence from some point on; the fuel bounds their number. -/
def itemsTail {α : Type} (item : Reader α) (isFirst : Bool) : Nat → Reader (List α)
  | 0, _ => .error .malformed
  | fuel + 1, cs => do
    match ← nextItem? isFirst cs with
    | none => closeSequence [] cs
    | some cs =>
      let (a, cs) ← item cs
      let (as, cs) ← itemsTail item false fuel cs
      return (a :: as, cs)

/-- A sequence of items. -/
def sequence {α : Type} (item : Reader α) : Reader (List α) := fun cs =>
  match skipBlanks cs with
  | '[' :: rest => itemsTail item true (rest.length + 1) rest
  | cs => refuse "a sequence" cs

/-- The name of a member. A value of any other type in its place is no JSON. -/
def memberName : Reader String := fun cs =>
  match skipBlanks cs with
  | '"' :: rest => do
    let (name, rest) ← stringTail rest
    return (String.ofList name, rest)
  | _ => .error .malformed

/-- The name of the next member of an object, or nothing if the object closes. -/
def nextName? (isFirst : Bool) (cs : List Char) : Except Fault (Option (String × List Char)) :=
  match skipBlanks cs with
  | [] => .error .malformed
  | c :: rest =>
    if c = '\x7d' then .ok none
    else if isFirst then (memberName (c :: rest)).map some
    else if c = ',' then (memberName rest).map some
    else .error .malformed

/-- The colon between a name and its value. -/
def colon (cs : List Char) : Except Fault (List Char) :=
  match skipBlanks cs with
  | ':' :: rest => .ok rest
  | _ => .error .malformed

/-- The closing brace of an object. -/
def closeObject {α : Type} (a : α) : Reader α := fun cs =>
  match skipBlanks cs with
  | '\x7d' :: rest => .ok (a, rest)
  | _ => .error .malformed

/-- The members of an object from some point on, each of which changes a state. What a name asks
for is settled before its value is read. -/
def membersTail {τ : Type} (member : String → τ → Except Fault (Reader τ)) (isFirst : Bool) :
    Nat → τ → Reader τ
  | 0, _, _ => .error .malformed
  | fuel + 1, state, cs => do
    match ← nextName? isFirst cs with
    | none => closeObject state cs
    | some (name, cs) =>
      let value ← member name state
      let (state, cs) ← value (← colon cs)
      membersTail member false fuel state cs

/-- An object whose members change a state. -/
def members {τ : Type} (member : String → τ → Except Fault (Reader τ)) (state : τ) : Reader τ :=
  fun cs => membersTail member true (cs.length + 1) state cs

/-- An object with values of one type, by its members in order. -/
def mapping {α : Type} (value : Reader α) : Reader (List (String × α)) := fun cs =>
  match skipBlanks cs with
  | '\x7b' :: rest => do
    let add (name : String) (entries : List (String × α)) : Reader (List (String × α)) := fun cs => do
      let (a, cs) ← value cs
      return ((name, a) :: entries, cs)
    let (entries, rest) ← members (fun name entries => return add name entries) [] rest
    return (entries.reverse, rest)
  | cs => refuse "a map" cs

mutual

/-- Passes over a value of any kind. Its numbers may be out of range. -/
def skipValue : Nat → List Char → Except Fault (List Char)
  | 0, _ => .error .malformed
  | fuel + 1, cs =>
    match skipBlanks cs with
    | [] => .error .malformed
    | c :: cs =>
      if c = 'n' then word "ull".toList cs
      else if c = 't' then word "rue".toList cs
      else if c = 'f' then word "alse".toList cs
      else if c = '"' then skipString cs
      else if c = '[' then
        match skipBlanks cs with
        | ']' :: rest => .ok rest
        | _ => skipItems fuel cs
      else if c = '\x7b' then
        match skipBlanks cs with
        | '\x7d' :: rest => .ok rest
        | _ => skipMembers fuel cs
      else if c = '-' || c.isDigit then do
        let (_, rest) ← numberParts (c :: cs)
        return rest
      else .error .malformed

/-- Passes over the items of a sequence and its closing bracket. -/
def skipItems : Nat → List Char → Except Fault (List Char)
  | 0, _ => .error .malformed
  | fuel + 1, cs => do
    match skipBlanks (← skipValue fuel cs) with
    | ']' :: rest => return rest
    | ',' :: rest => skipItems fuel rest
    | _ => .error .malformed

/-- Passes over the members of an object and its closing brace. -/
def skipMembers : Nat → List Char → Except Fault (List Char)
  | 0, _ => .error .malformed
  | fuel + 1, cs =>
    match skipBlanks cs with
    | '"' :: cs => do
      match skipBlanks (← skipValue fuel (← colon (← skipString cs))) with
      | '\x7d' :: rest => return rest
      | ',' :: rest => skipMembers fuel rest
      | _ => .error .malformed
    | _ => .error .malformed

end

/-- Passes over a value and keeps a state. -/
def ignore {τ : Type} (state : τ) : Reader τ := fun cs => do
  return (state, ← skipValue (2 * cs.length + 2) cs)

/-- Adds the value of a field to a record that lacks it so far. -/
def field {τ α : Type} (name : String) (present : Option α) (value : Reader α) (set : α → τ) :
    Except Fault (Reader τ) :=
  match present with
  | some _ => .error (.duplicateField name)
  | none => .ok fun cs => (value cs).map fun (a, rest) => (set a, rest)

/-- The value of a field that has to be there. -/
def require {α : Type} (name : String) : Option α → Except Fault α
  | some a => .ok a
  | none => .error (.missingField name)

/-- The item of a record that is written as a sequence; `index` items stand before it. -/
def positional {α : Type} (index : Nat) (value : Reader α) : Reader α := fun cs => do
  match ← nextItem? (index == 0) cs with
  | none => throw (.tooShort index)
  | some cs => value cs

/-- What a variant of a tagged value carries. -/
inductive Payload (α : Type) where
  | nothing (a : α)
  | content (value : Reader α)

/-- A tagged value: the name of a variant that carries nothing, or an object with the name of a
variant and what it carries. -/
def tagged {α : Type} (variant? : String → Option (Payload α)) : Reader α := fun cs =>
  match skipBlanks cs with
  | '"' :: rest => do
    let (name, rest) ← stringTail rest
    match variant? (String.ofList name) with
    | some (.nothing a) => return (a, rest)
    | some (.content _) => throw (.wrongType (.string (String.ofList name)) "a variant without content")
    | none => throw (.unknownVariant (String.ofList name))
  | '\x7b' :: rest => do
    let (name, rest) ← memberName rest
    match variant? name with
    | none => throw (.unknownVariant name)
    | some (.nothing a) =>
      let (_, rest) ← readNull (← colon rest)
      closeObject a rest
    | some (.content value) =>
      let (a, rest) ← value (← colon rest)
      closeObject a rest
  | _ => .error .malformed

/-- Reads a whole text; only blanks may follow. -/
def read {α : Type} (value : Reader α) (text : String) : Except Fault α := do
  let (a, rest) ← value text.toList
  if (skipBlanks rest).isEmpty then return a else throw .malformed

end StackMachine.Json
