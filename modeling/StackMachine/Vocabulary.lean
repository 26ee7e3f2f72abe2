import StackMachine.Code
import StackMachine.Instruction
import StackMachine.Log
import StackMachine.NameMap

/-! The words of the instruction language and the instructions they stand for. -/
namespace StackMachine

/-- What may be called: the names of the functions of every stack, and the words of the calls in the
order of their registration. -/
structure Vocabulary where
  functions : NameMap (NameMap Unit) := .empty
  symbols : List String := []
deriving DecidableEq

namespace Vocabulary

/-- The name under which the verbs of the cursor are called. -/
def cursorName : String := "cursor"

/-- The word of a call. -/
def symbol (stack function : String) : String := stack ++ "." ++ function

/-- The functions of a stack, none if there is nothing known of it. -/
def functionsOf (v : Vocabulary) (stack : String) : NameMap Unit :=
  (v.functions.get? stack).getD .empty

/-- Makes a call known. Its word is added if the function is new among those of the stack. -/
def register (v : Vocabulary) (stack function : String) : Vocabulary :=
  let functions := v.functionsOf stack
  { functions := v.functions.insert stack (functions.insert function ())
    symbols := if functions.contains function then v.symbols
      else v.symbols ++ [symbol stack function] }

def isRegistered (v : Vocabulary) (stack function : String) : Bool :=
  (v.functions.get? stack).any (·.contains function)

theorem isRegistered_eq (v : Vocabulary) (stack function : String) :
    v.isRegistered stack function = (v.functionsOf stack).contains function := by
  unfold isRegistered functionsOf
  cases v.functions.get? stack with
  | none => rfl
  | some functions => rfl

theorem functionsOf_register (v : Vocabulary) (stack function other : String) :
    (v.register stack function).functionsOf other =
      if stack = other then (v.functionsOf stack).insert function () else v.functionsOf other := by
  unfold register
  rw [functionsOf, NameMap.get?_insert]
  split
  · rfl
  · rfl

theorem isRegistered_register {v : Vocabulary} {stack function stack' function' : String} :
    (v.register stack function).isRegistered stack' function' = true ↔
      v.isRegistered stack' function' = true ∨ (stack', function') = (stack, function) := by
  rw [isRegistered_eq, isRegistered_eq, functionsOf_register, Prod.mk.injEq]
  split
  · rename_i h
    subst h
    simp [NameMap.contains_insert]
  · rename_i h
    simp [Ne.symm h]

/-- To register a call again changes neither the functions nor the words. -/
theorem register_of_isRegistered {v : Vocabulary} {stack function : String}
    (h : v.isRegistered stack function = true) : v.register stack function = v := by
  obtain ⟨functions, hstack, hfunction⟩ := (Option.any_eq_true _ _).mp h
  obtain ⟨⟨⟩, hget⟩ := NameMap.contains_iff.mp hfunction
  have hof : v.functionsOf stack = functions := by
    rw [functionsOf, hstack]
    rfl
  unfold register
  simp only [hof, NameMap.insert_eq_self hget, NameMap.insert_eq_self hstack, hfunction, if_true]

theorem symbols_register_of_new {v : Vocabulary} {stack function : String}
    (h : v.isRegistered stack function = false) :
    (v.register stack function).symbols = v.symbols ++ [symbol stack function] := by
  rw [isRegistered_eq] at h
  simp [register, h]

theorem isRegistered_foldl_register {v : Vocabulary} {calls : List (String × String)}
    {stack function : String} :
    (calls.foldl (fun v (stack, function) => v.register stack function) v).isRegistered
        stack function = true ↔
      v.isRegistered stack function = true ∨ (stack, function) ∈ calls := by
  induction calls generalizing v with
  | nil => simp
  | cons d calls ih =>
    rw [List.foldl_cons, ih, isRegistered_register, List.mem_cons, or_assoc]

/-- From nothing, exactly the registered calls become known. -/
theorem isRegistered_of_history {calls : List (String × String)} {stack function : String} :
    (calls.foldl (fun v (stack, function) => v.register stack function)
        ({} : Vocabulary)).isRegistered stack function = true ↔ (stack, function) ∈ calls :=
  isRegistered_foldl_register.trans (or_iff_right Bool.false_ne_true)

/-- The registered calls by the names of the stacks and of the functions. -/
def known (v : Vocabulary) : List (String × String) :=
  v.functions.entries.flatMap fun (stack, functions) => functions.names.map (stack, ·)

theorem mem_known {v : Vocabulary} {stack function : String} :
    (stack, function) ∈ v.known ↔ v.isRegistered stack function = true := by
  unfold known isRegistered
  rw [Option.any_eq_true]
  simp only [List.mem_flatMap, List.mem_map, Prod.mk.injEq]
  constructor
  · rintro ⟨⟨name, functions⟩, hentry, f, hf, rfl, rfl⟩
    exact ⟨functions, NameMap.get?_eq_some_iff.mpr hentry,
      NameMap.contains_iff.mpr (NameMap.mem_names_iff.mp hf)⟩
  · rintro ⟨functions, hget, hf⟩
    exact ⟨(stack, functions), NameMap.get?_eq_some_iff.mp hget, function,
      NameMap.mem_names_iff.mpr (NameMap.contains_iff.mp hf), rfl, rfl⟩

/-- A text without a minus sign in front. -/
def unsignedPart : List Char → List Char
  | '-' :: cs => cs
  | cs => cs

/-- The text before the first point and the text after it. -/
def splitPoint? : List Char → Option (List Char × List Char)
  | [] => none
  | c :: cs =>
    if c = '.' then some ([], cs)
    else (splitPoint? cs).map fun (before, after) => (c :: before, after)

/-- Digits, with or without a minus sign. -/
def isInteger (token : List Char) : Bool := Decimal.isDigits (unsignedPart token)

/-- Digits, a point and digits, with or without a minus sign. -/
def isFloat (token : List Char) : Bool :=
  match splitPoint? (unsignedPart token) with
  | some (whole, fraction) => Decimal.isDigits whole && Decimal.isDigits fraction
  | none => false

/-- A character of a stack name: an ASCII letter, a digit or an underscore. -/
def isNameChar (c : Char) : Bool := c.isAlphanum || c = '_'

/-- The stack and the function of a token of the form of a call. -/
def splitCall? (token : List Char) : Option (String × String) :=
  match splitPoint? token with
  | some (stack, function) =>
    if !stack.isEmpty && stack.all isNameChar && !function.isEmpty && !function.contains '.' then
      some (String.ofList stack, String.ofList function)
    else none
  | none => none

/-- The command that a token stands for: a literal, a verb of the cursor, or a registered call. -/
def command? (v : Vocabulary) (token : String) : Option Command :=
  if token = "true" || token = "false" then some (.literal .boolean)
  else if isInteger token.toList then some (.literal .integer)
  else if isFloat token.toList then some (.literal .float)
  else match splitCall? token.toList with
    | some (stack, function) =>
      if stack = cursorName then some (.cursor function)
      else if v.isRegistered stack function then some (.call stack function)
      else none
    | none => none

/-- The instruction that a token stands for. -/
def instruction? (v : Vocabulary) (token : String) : Option Instruction :=
  (v.command? token).map fun command => { command, token }

/-- The instructions of those tokens that stand for one. -/
def instructions (v : Vocabulary) (tokens : List String) : List Instruction :=
  tokens.filterMap v.instruction?

/-- The number of tokens that stand for no instruction. -/
def dropped (v : Vocabulary) (tokens : List String) : Nat :=
  tokens.countP fun t => (v.instruction? t).isNone

/-- Reads tokens as a program and tells how many of them were dropped. -/
def readTokens (v : Vocabulary) (tokens : List String) : Logged Program := do
  let count := v.dropped tokens
  Logged.tellIf (0 < count) .debug
    ("Parser dropped " ++ toString count ++ " unrecognized token(s)")
  return (v.instructions tokens).toArray

/-- Reads the words of a text as a program. -/
def read (v : Vocabulary) (text : String) : Logged Program := v.readTokens (Text.words text)

end Vocabulary
end StackMachine
