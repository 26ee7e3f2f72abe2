import StackMachine.Decimal.Layout

/-! JSON values and their compact text. Machines leave writing to a JSON library. What is assumed of
it is spelled out here: no blanks, members in the order given, escapes where JSON asks for them and
nowhere else, and finite floats with the fewest digits that tell them from all other floats, in the
layout of `floatLayout`. Writing cannot fail. -/
namespace StackMachine

/-- A JSON value; the members of an object are kept in order. -/
inductive Json where
  | null
  | boolean (value : Bool)
  | integer (value : Int)
  | float (value : Float)
  | string (value : String)
  | array (items : List Json)
  | object (members : List (String × Json))

namespace Json

/-- Floats in JSON texts: at least one fractional digit, and an exponent with its sign below
`1e-5` and from `1e16` on. A float that is no number has no JSON number. -/
def floatLayout : Decimal.Layout :=
  { tie := .even, least := some (-5), greatest := some 15, fraction := true, plus := true
    nan := "null", infinity := "null" }

/-- One character of a string, escaped if it has to be. -/
def escape (c : Char) : List Char :=
  if c = '"' then ['\\', '"']
  else if c = '\\' then ['\\', '\\']
  else if c.toNat = 0x08 then ['\\', 'b']
  else if c.toNat = 0x0C then ['\\', 'f']
  else if c = '\n' then ['\\', 'n']
  else if c = '\r' then ['\\', 'r']
  else if c = '\t' then ['\\', 't']
  else if c.toNat < 0x20 then
    ['\\', 'u', '0', '0', Nat.digitChar (c.toNat / 16), Nat.digitChar (c.toNat % 16)]
  else [c]

/-- A string between quotes. -/
def renderString (s : String) : List Char :=
  '"' :: s.toList.flatMap escape ++ ['"']

mutual

/-- The text of a value, without blanks. -/
def render : Json → List Char
  | .null => "null".toList
  | .boolean value => (if value then "true" else "false").toList
  | .integer value => Decimal.integerChars value
  | .float value => (floatLayout.render value).toList
  | .string value => renderString value
  | .array [] => ['[', ']']
  | .array (item :: items) => '[' :: render item ++ renderItems items
  | .object [] => ['\x7b', '\x7d']
  | .object ((name, value) :: members) =>
    '\x7b' :: renderString name ++ ':' :: render value ++ renderMembers members

/-- The items after the first one, and the closing bracket. -/
def renderItems : List Json → List Char
  | [] => [']']
  | item :: items => ',' :: render item ++ renderItems items

/-- The members after the first one, and the closing brace. -/
def renderMembers : List (String × Json) → List Char
  | [] => ['\x7d']
  | (name, value) :: members =>
    ',' :: renderString name ++ ':' :: render value ++ renderMembers members

end

/-- The text of a value. -/
def text (j : Json) : String := String.ofList j.render

end Json
end StackMachine
