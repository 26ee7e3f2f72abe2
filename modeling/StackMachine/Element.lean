import StackMachine.Arithmetic
import StackMachine.Decimal.Layout
import StackMachine.Decimal.Numeral

/-! The values that stacks hold, and their kinds. -/
namespace StackMachine

/-- The kinds of values. -/
inductive Kind where
  | integer
  | float
  | boolean
deriving DecidableEq, Repr

namespace Kind

/-- Every kind, in ascending order. -/
def all : List Kind := [.integer, .float, .boolean]

/-- The name of a kind, which is also the name of its standard stack. -/
def name : Kind → String
  | .integer => "integer"
  | .float => "float"
  | .boolean => "boolean"

/-- The kind of a name. -/
def ofName? (name : String) : Option Kind :=
  all.find? (·.name = name)

/-- The place of a kind in the order of kinds. -/
def rank : Kind → Nat
  | .integer => 0
  | .float => 1
  | .boolean => 2

instance : Ord Kind := ⟨fun a b => compare a.rank b.rank⟩

/-- The name of a kind as a heading. -/
def title : Kind → String
  | .integer => "Integer"
  | .float => "Float"
  | .boolean => "Boolean"

end Kind

/-- A value on a stack. -/
inductive Element where
  | integer (value : Int64)
  | float (value : Float)
  | boolean (value : Bool)
deriving DecidableEq, Repr

namespace Element

def kind : Element → Kind
  | .integer _ => .integer
  | .float _ => .float
  | .boolean _ => .boolean

/-- Floats as the machine shows them: at least one fractional digit, and an exponent below `1e-4`
and from `1e16` on. -/
def floatLayout : Decimal.Layout :=
  { tie := .up, least := some (-4), greatest := some 15, fraction := true, plus := false
    nan := "NaN", infinity := "inf" }

/-- The text of an integer. -/
def integerText (value : Int64) : String :=
  String.ofList (Decimal.integerChars value.toInt)

/-- The text of a truth value. -/
def booleanText (value : Bool) : String :=
  if value then "true" else "false"

/-- The text of an element. -/
def text : Element → String
  | .integer value => integerText value
  | .float value => floatLayout.render value
  | .boolean value => booleanText value

/-- Equality of values, where floats compare as numbers: a NaN differs from itself and the two
zeros are equal. -/
def equals : Element → Element → Bool
  | .integer a, .integer b => a = b
  | .float a, .float b => a == b
  | .boolean a, .boolean b => a = b
  | _, _ => false

end Element

namespace Kind

/-- The element of a kind that a literal token denotes. Integers out of range and floats that
round to an infinity denote nothing. -/
def parse? : Kind → String → Option Element
  | .integer, token => ((Decimal.integer? token).bind Decimal.int64?).map .integer
  | .float, token => ((Decimal.float? token).filter Float.isFinite).map .float
  | .boolean, token =>
    if token = "true" then some (.boolean true)
    else if token = "false" then some (.boolean false)
    else none

/-- An element as one of a kind: integers widen to floats, and nothing else changes its kind. -/
def adopt? : Kind → Element → Option Element
  | .float, .integer value => some (.float (Arithmetic.floatOfInteger value))
  | kind, e => if e.kind = kind then some e else none

end Kind
end StackMachine
