import StackMachine.Decimal.Numeral
import StackMachine.Text.Hex
import StackMachine.Toml

/-! The strings, numbers, dates and blanks of TOML texts. -/
namespace StackMachine.Toml

/-- Reads something from the front of a text and returns the rest of the text. -/
abbrev Scan (α : Type) := List Char → Option (α × List Char)

def isBlank (c : Char) : Bool := c = ' ' || c = '\t'

def skipBlanks (cs : List Char) : List Char := cs.dropWhile isBlank

/-- A character that a line may hold: no control but the tab. -/
def isLineChar (c : Char) : Bool :=
  c = '\t' || (0x20 ≤ c.toNat && c.toNat ≤ 0x7E) || 0x80 ≤ c.toNat

/-- The text after a line break. -/
def newline? : List Char → Option (List Char)
  | '\n' :: cs => some cs
  | '\r' :: '\n' :: cs => some cs
  | _ => none

/-- The text after the end of a line, up to which only blanks and a comment stand. -/
def endLine? (cs : List Char) : Option (List Char) :=
  let cs := match skipBlanks cs with
    | '#' :: cs => cs.dropWhile isLineChar
    | cs => cs
  if cs.isEmpty then some [] else newline? cs

/-- Passes over blanks, line breaks and comments, which end with their lines. -/
def skipFiller? (inComment : Bool) : List Char → Option (List Char)
  | [] => if inComment then none else some []
  | '\n' :: cs => skipFiller? false cs
  | '\r' :: '\n' :: cs => skipFiller? false cs
  | c :: cs =>
    if inComment then if isLineChar c then skipFiller? true cs else none
    else if isBlank c then skipFiller? false cs
    else if c = '#' then skipFiller? true cs
    else some (c :: cs)

/-- Puts a character in front of what a string scan reads. -/
def prepend (c : Char) (r : Option (List Char × List Char)) : Option (List Char × List Char) :=
  r.map fun (cs, rest) => (c :: cs, rest)

/-- The character that an escape of one letter stands for. -/
def unescape? (c : Char) : Option Char :=
  if c = '"' || c = '\\' then some c
  else if c = 'b' then some '\x08'
  else if c = 'f' then some '\x0c'
  else if c = 'n' then some '\n'
  else if c = 'r' then some '\r'
  else if c = 't' then some '\t'
  else none

/-- The character of a code point in hexadecimal digits. -/
def scalar? (digits : List Char) : Option Char := do
  let n ← Text.digitsIn? 16 digits
  if n.isValidChar then return Char.ofNat n else none

/-- The characters of a string in double quotes, up to its closing quote. -/
def basicTail : Scan (List Char)
  | [] => none
  | '"' :: rest => some ([], rest)
  | '\\' :: 'u' :: a :: b :: c :: d :: rest => do
    prepend (← scalar? [a, b, c, d]) (basicTail rest)
  | '\\' :: 'U' :: a :: b :: c :: d :: e :: f :: g :: h :: rest => do
    prepend (← scalar? [a, b, c, d, e, f, g, h]) (basicTail rest)
  | '\\' :: c :: rest => do
    prepend (← unescape? c) (basicTail rest)
  | c :: rest => if isLineChar c && c ≠ '\\' then prepend c (basicTail rest) else none

/-- Whether a backslash in front of this text joins its line to the next one. -/
def joinsLines (cs : List Char) : Bool := (newline? (skipBlanks cs)).isSome

/-- The characters of a string in three double quotes, up to its closing quotes. After a joined
line, blanks and line breaks are passed over. -/
def multilineBasicTail (joining : Bool) : Scan (List Char)
  | [] => none
  | '"' :: '"' :: '"' :: '"' :: '"' :: rest => some (['"', '"'], rest)
  | '"' :: '"' :: '"' :: '"' :: rest => some (['"'], rest)
  | '"' :: '"' :: '"' :: rest => some ([], rest)
  | '\n' :: rest =>
    if joining then multilineBasicTail true rest
    else prepend '\n' (multilineBasicTail false rest)
  | '\r' :: '\n' :: rest =>
    if joining then multilineBasicTail true rest
    else prepend '\n' (multilineBasicTail false rest)
  | '\\' :: 'u' :: a :: b :: c :: d :: rest => do
    prepend (← scalar? [a, b, c, d]) (multilineBasicTail false rest)
  | '\\' :: 'U' :: a :: b :: c :: d :: e :: f :: g :: h :: rest => do
    prepend (← scalar? [a, b, c, d, e, f, g, h]) (multilineBasicTail false rest)
  | '\\' :: c :: rest =>
    if joinsLines (c :: rest) then multilineBasicTail true rest
    else do
      prepend (← unescape? c) (multilineBasicTail false rest)
  | c :: rest =>
    if joining && isBlank c then multilineBasicTail true rest
    else if isLineChar c && c ≠ '\\' then prepend c (multilineBasicTail false rest)
    else none

/-- The characters of a string in single quotes, up to its closing quote. -/
def literalTail : Scan (List Char)
  | [] => none
  | '\x27' :: rest => some ([], rest)
  | c :: rest => if isLineChar c then prepend c (literalTail rest) else none

/-- The characters of a string in three single quotes, up to its closing quotes. -/
def multilineLiteralTail : Scan (List Char)
  | [] => none
  | '\x27' :: '\x27' :: '\x27' :: '\x27' :: '\x27' :: rest => some (['\x27', '\x27'], rest)
  | '\x27' :: '\x27' :: '\x27' :: '\x27' :: rest => some (['\x27'], rest)
  | '\x27' :: '\x27' :: '\x27' :: rest => some ([], rest)
  | '\n' :: rest => prepend '\n' (multilineLiteralTail rest)
  | '\r' :: '\n' :: rest => prepend '\n' (multilineLiteralTail rest)
  | c :: rest => if isLineChar c then prepend c (multilineLiteralTail rest) else none

/-- A line break right after the opening quotes is not part of a string. -/
def dropNewline (cs : List Char) : List Char := (newline? cs).getD cs

/-- A string of one line. -/
def lineString : Scan String := fun cs =>
  let make (r : Option (List Char × List Char)) : Option (String × List Char) :=
    r.map fun (s, rest) => (String.ofList s, rest)
  match cs with
  | '"' :: rest => make (basicTail rest)
  | '\x27' :: rest => make (literalTail rest)
  | _ => none

/-- A string. -/
def string : Scan String := fun cs =>
  let make (r : Option (List Char × List Char)) : Option (String × List Char) :=
    r.map fun (s, rest) => (String.ofList s, rest)
  match cs with
  | '"' :: '"' :: '"' :: rest => make (multilineBasicTail false (dropNewline rest))
  | '\x27' :: '\x27' :: '\x27' :: rest => make (multilineLiteralTail (dropNewline rest))
  | cs => lineString cs

/-- A run of digits, between which single underscores may stand; the underscores are dropped. -/
def digitRun (isDigit : Char → Bool) : Scan (List Char)
  | [] => none
  | c :: rest =>
    if isDigit c then
      match rest with
      | [] => some ([c], [])
      | '_' :: rest => prepend c (digitRun isDigit rest)
      | d :: rest' => if isDigit d then prepend c (digitRun isDigit (d :: rest')) else some ([c], d :: rest')
    else none

/-- Decimal digits without a superfluous zero in front. -/
def wholeDigits : Scan (List Char)
  | '0' :: rest => some (['0'], rest)
  | cs => digitRun Char.isDigit cs

/-- An exponent, if there is one. -/
def exponentPart : Scan (Option Int)
  | [] => some (none, [])
  | c :: cs =>
    if c = 'e' || c = 'E' then do
      let (negative, cs) := Decimal.takeSign cs
      let (digits, rest) ← digitRun Char.isDigit cs
      let n : Int := Decimal.digitsValue digits
      return (some (if negative then -n else n), rest)
    else some (none, c :: cs)

/-- The digits after a point, if there is one. -/
def fractionPart : Scan (Option (List Char))
  | '.' :: cs => (digitRun Char.isDigit cs).map fun (digits, rest) => (some digits, rest)
  | cs => some (none, cs)

/-- An integer that is in range. -/
def integerNode? (n : Int) : Option Node := (Decimal.int64? n).map .integer

/-- A decimal integer or float. A positive float must not be out of range. -/
def decimalNumber : Scan Node := fun cs => do
  let (negative, cs) := Decimal.takeSign cs
  let (whole, cs) ← wholeDigits cs
  let (fraction, cs) ← fractionPart cs
  let (exponent, cs) ← exponentPart cs
  if fraction.isNone && exponent.isNone then
    let n : Int := Decimal.digitsValue whole
    return (← integerNode? (if negative then -n else n), cs)
  else
    let numeral := Decimal.Numeral.ofParts negative whole (fraction.getD []) (exponent.getD 0)
    let x := numeral.toFloat
    if x.isInf && !negative then none else return (.float x, cs)

/-- An integer in a base that is a power of two. -/
def radixNumber (base : Nat) (isDigit : Char → Bool) : Scan Node := fun cs => do
  let (digits, rest) ← digitRun isDigit cs
  return (← integerNode? (← Text.digitsIn? base digits), rest)

/-- A fixed word. -/
def word (w : List Char) (node : Node) : Scan Node := fun cs =>
  if cs.take w.length = w then some (node, cs.drop w.length) else none

/-- An infinity or a NaN, with or without a sign. -/
def specialNumber : Scan Node := fun cs =>
  let (negative, cs) := Decimal.takeSign cs
  let make (x : Float) : Node := .float (if negative then -x else x)
  match cs with
  | 'i' :: _ => word "inf".toList (make (1.0 / 0.0)) cs
  | 'n' :: _ => word "nan".toList (make (0.0 / 0.0)) cs
  | _ => none

/-- As many digits as asked for. -/
def fixedDigits (count : Nat) : Scan Nat := fun cs =>
  let digits := cs.take count
  if digits.length = count && digits.all Char.isDigit then
    some (Decimal.digitsValue digits, cs.drop count)
  else none

/-- A fixed character. -/
def mark (c : Char) : List Char → Option (List Char)
  | [] => none
  | d :: rest => if d = c then some rest else none

/-- The number of days of a month. -/
def daysIn (year month : Nat) : Nat :=
  if month = 2 then
    if year % 4 = 0 && (year % 100 ≠ 0 || year % 400 = 0) then 29 else 28
  else if [4, 6, 9, 11].contains month then 30
  else 31

/-- The text after a time of day. -/
def time? (cs : List Char) : Option (List Char) := do
  let (hour, cs) ← fixedDigits 2 cs
  let (minute, cs) ← fixedDigits 2 (← mark ':' cs)
  let (second, cs) ← fixedDigits 2 (← mark ':' cs)
  if 23 < hour || 59 < minute || 60 < second then none
  else match cs with
    | '.' :: rest =>
      if (rest.takeWhile Char.isDigit).isEmpty then some cs else some (rest.dropWhile Char.isDigit)
    | cs => some cs

/-- The text after an offset from universal time, if there is one. -/
def offset? : List Char → Option (List Char)
  | [] => some []
  | c :: cs =>
    if c = 'Z' || c = 'z' then some cs
    else if c = '+' || c = '-' then do
      let (hour, cs) ← fixedDigits 2 cs
      let (minute, cs) ← fixedDigits 2 (← mark ':' cs)
      if 23 < hour || 59 < minute then none else some cs
    else some (c :: cs)

/-- The text after a date. -/
def date? (cs : List Char) : Option (List Char) := do
  let (year, cs) ← fixedDigits 4 cs
  let (month, cs) ← fixedDigits 2 (← mark '-' cs)
  let (day, cs) ← fixedDigits 2 (← mark '-' cs)
  if month = 0 || 12 < month || day = 0 || daysIn year month < day then none else some cs

/-- The text after a date and, if one follows, a time of day with an offset. -/
def dateTime? (cs : List Char) : Option (List Char) := do
  let cs ← date? cs
  match cs with
  | [] => some []
  | c :: rest =>
    if c = 'T' || c = 't' || c = ' ' then
      match fixedDigits 2 rest with
      | some (_, ':' :: _) => offset? (← time? rest)
      | _ => some cs
    else some cs

/-- Whether a text starts with as many digits as asked for and then a character. -/
def startsLike (count : Nat) (c : Char) (cs : List Char) : Bool :=
  match fixedDigits count cs with
  | some (_, d :: _) => d = c
  | _ => false

/-- A number, a date or a time. -/
def number : Scan Node := fun cs =>
  if startsLike 4 '-' cs then (dateTime? cs).map fun rest => (.moment, rest)
  else if startsLike 2 ':' cs then (time? cs).map fun rest => (.moment, rest)
  else match cs with
    | '0' :: 'x' :: rest => radixNumber 16 (fun c => (Text.hexDigit? c).isSome) rest
    | '0' :: 'o' :: rest => radixNumber 8 (fun c => '0' ≤ c && c ≤ '7') rest
    | '0' :: 'b' :: rest => radixNumber 2 (fun c => c = '0' || c = '1') rest
    | cs => (specialNumber cs).or (decimalNumber cs)

end StackMachine.Toml
