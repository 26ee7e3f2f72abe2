import StackMachine.Decimal.Shortest

/-! How the digits of a float are laid out as text. -/
namespace StackMachine.Decimal

/-- The choices of a float format. -/
structure Layout where
  /-- Which of two equally near decimals is written. -/
  tie : Tie
  /-- The least exponent written without an exponent part; none if all are. -/
  least : Option Int
  /-- The greatest exponent written without an exponent part; none if all are. -/
  greatest : Option Int
  /-- Whether an integral value keeps a fractional part `.0`. -/
  fraction : Bool
  /-- Whether a positive exponent carries a plus sign. -/
  plus : Bool
  nan : String
  infinity : String

/-- Whether a value of this exponent is written without an exponent part. -/
def Layout.isPositional (l : Layout) (exponent : Int) : Bool :=
  l.least.all (· ≤ exponent) && l.greatest.all (exponent ≤ ·)

/-- The digits before and after the decimal point. -/
def Scientific.split (s : Scientific) : List Char × List Char :=
  if s.exponent < 0 then
    (['0'], List.replicate (-s.exponent - 1).toNat '0' ++ s.digits)
  else
    let whole := s.exponent.toNat + 1
    let digits := s.digits ++ List.replicate (whole - s.digits.length) '0'
    (digits.take whole, digits.drop whole)

/-- Positional notation. -/
def Layout.positional (l : Layout) (s : Scientific) : List Char :=
  match s.split with
  | (whole, []) => whole ++ if l.fraction then ['.', '0'] else []
  | (whole, rest) => whole ++ '.' :: rest

/-- Decimal digits of an integer, with its sign. -/
def integerChars : Int → List Char
  | .ofNat n => Nat.toDigits 10 n
  | .negSucc n => '-' :: Nat.toDigits 10 (n + 1)

/-- Exponent notation. -/
def Layout.exponential (l : Layout) (s : Scientific) : List Char :=
  let mantissa := match s.digits with
    | [] => ['0']
    | [d] => [d]
    | d :: rest => d :: '.' :: rest
  let sign := if l.plus && 0 ≤ s.exponent then ['+'] else []
  mantissa ++ 'e' :: sign ++ integerChars s.exponent

/-- The text of a magnitude. -/
def Layout.magnitude (l : Layout) (b : Binary) : List Char :=
  let s := b.shortest l.tie
  if l.isPositional s.exponent then l.positional s else l.exponential s

/-- The text of a float; a NaN has no sign. -/
def Layout.render (l : Layout) (x : Float) : String :=
  match Reading.ofFloat x with
  | .nan => l.nan
  | .infinite false => l.infinity
  | .infinite true => "-" ++ l.infinity
  | .finite false b => String.ofList (l.magnitude b)
  | .finite true b => String.ofList ('-' :: l.magnitude b)

/-- Floats in messages: never an exponent, and no fraction on whole values. -/
def Layout.plain : Layout :=
  { tie := .up, least := none, greatest := none, fraction := false, plus := false
    nan := "NaN", infinity := "inf" }

end StackMachine.Decimal
