import StackMachine.Interpreter

/-! Random programs. -/
namespace StackMachine
namespace Interpreter
variable {σ : Type} [RandomSource σ]

/-- Draws an integer below a bound. -/
def drawBelow (bound : Nat) : StateM (Interpreter σ) Nat := fun i =>
  let (n, source) := RandomSource.intBelow bound i.source
  (n, { i with source })

/-- Draws the value of a random integer. -/
def drawInteger : StateM (Interpreter σ) Int64 := fun i =>
  let (n, source) := RandomSource.randomInteger i.source
  (n, { i with source })

/-- Draws the value of a random float. -/
def drawFloat : StateM (Interpreter σ) Float := fun i =>
  let (x, source) := RandomSource.randomFloat i.source
  (x, { i with source })

/-- A minus sign half of the time. -/
def drawSign : StateM (Interpreter σ) String := do
  return if 0.5 < (← drawFloat) then "-" else ""

/-- A natural number with zeros in front, up to a width. -/
def padded (width n : Nat) : String :=
  let digits := Nat.toDigits 10 n
  String.ofList (List.replicate (width - digits.length) '0' ++ digits)

/-- A random literal: one digit, six decimals, or a truth value. -/
def randomLiteral : Kind → StateM (Interpreter σ) String
  | .integer => do
    let sign ← drawSign
    return sign ++ Element.integerText (← drawInteger)
  | .float => do
    let sign ← drawSign
    let micros := min (((← drawFloat) * 1e6).toUInt32.toNat) 999999
    return sign ++ "0." ++ padded 6 micros
  | .boolean => do
    return Element.booleanText (0.5 < (← drawFloat))

/-- A random literal of one of the kinds of the options. -/
def randomAnyLiteral : StateM (Interpreter σ) String := do
  let kinds := (← get).options.kinds
  if kinds.isEmpty then randomLiteral .integer
  else randomLiteral (kinds.getD (← drawBelow kinds.length) .integer)

/-- A random word of the vocabulary, if it has any. -/
def randomSymbol : StateM (Interpreter σ) (Option String) := do
  let symbols := (← get).vocabulary.symbols
  if symbols.isEmpty then return none
  else return symbols[← drawBelow symbols.length]?

/-- A random token: a literal with the probability of the options, else a word. -/
def randomToken : StateM (Interpreter σ) String := do
  if (← drawFloat) < (← get).options.literalProbability then randomAnyLiteral
  else match ← randomSymbol with
    | some symbol => return symbol
    | none => randomAnyLiteral

/-- As many random tokens as asked for. -/
def randomTokens : Nat → StateM (Interpreter σ) (List String)
  | 0 => return []
  | n + 1 => do
    let token ← randomToken
    return token :: (← randomTokens n)

/-- A random program of a given length. -/
def randomCode (length : Nat) : StateM (Interpreter σ) Code := do
  return ⟨← randomTokens length⟩

end Interpreter
end StackMachine
