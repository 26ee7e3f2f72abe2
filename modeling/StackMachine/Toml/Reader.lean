import StackMachine.Toml.Scalar

/-! Reading TOML documents. A document that breaks a rule is refused as a whole; the library that
does this for options also says where and why, which is left to a parameter of `Options.load`. -/
namespace StackMachine.Toml

/-- How deep arrays, inline tables and dotted keys may nest. -/
def maxDepth : Nat := 79

def isBareKeyChar (c : Char) : Bool := c.isAlphanum || c = '_' || c = '-'

/-- A key without dots: bare or quoted. -/
def simpleKey : Scan String := fun cs =>
  match cs with
  | '"' :: _ => lineString cs
  | '\x27' :: _ => lineString cs
  | _ =>
    let key := cs.takeWhile isBareKeyChar
    if key.isEmpty then none else some (String.ofList key, cs.dropWhile isBareKeyChar)

/-- A key of at most so many parts between dots, around which blanks may stand. -/
def dottedKey : Nat → Scan (List String)
  | 0, _ => none
  | fuel + 1, cs => do
    let (key, rest) ← simpleKey (skipBlanks cs)
    match skipBlanks rest with
    | '.' :: rest =>
      let (keys, rest) ← dottedKey fuel rest
      return (key :: keys, rest)
    | rest => return ([key], rest)

/-- The last part of a key and the parts before it. -/
def splitLast (keys : List String) : Option (List String × String) := do
  return (keys.dropLast, ← keys.getLast?)

/-- The items of an array from some point on, with its closing bracket. -/
def arrayTail (value : Scan Node) : Nat → Scan (List Node)
  | 0, _ => none
  | fuel + 1, cs => do
    match ← skipFiller? false cs with
    | ']' :: rest => return ([], rest)
    | cs =>
      let (item, rest) ← value cs
      match ← skipFiller? false rest with
      | ']' :: rest => return ([item], rest)
      | ',' :: rest =>
        let (items, rest) ← arrayTail value fuel rest
        return (item :: items, rest)
      | _ => none

/-- A key, an equals sign and a value. -/
def keyValue (value : Scan Node) : Scan (List String × String × Node) := fun cs => do
  let (keys, rest) ← dottedKey maxDepth cs
  let (path, key) ← splitLast keys
  let (node, rest) ← value (skipBlanks (← mark '=' rest))
  return ((path, key, node), rest)

/-- The entries of an inline table from some point on, with its closing brace. -/
def inlineTail (value : Scan Node) : Nat → Entries → Scan Entries
  | 0, _, _ => none
  | fuel + 1, t, cs => do
    let ((path, key, node), rest) ← keyValue value cs
    let t ← t.assign path key node
    match skipBlanks rest with
    | '\x7d' :: rest => return (t, rest)
    | ',' :: rest => inlineTail value fuel t rest
    | _ => none

/-- A value in which arrays and inline tables nest at most so deep. -/
def value : Nat → Scan Node
  | depth, cs =>
    match cs with
    | [] => none
    | c :: rest =>
      if c = '"' || c = '\x27' then (string cs).map fun (s, rest) => (.string s, rest)
      else if c = '[' then
        match depth with
        | 0 => none
        | depth + 1 =>
          (arrayTail (value depth) (rest.length + 1) rest).map fun (items, rest) =>
            (.array items, rest)
      else if c = '\x7b' then
        match depth with
        | 0 => none
        | depth + 1 =>
          match skipBlanks rest with
          | '\x7d' :: rest => some (.table .inline [], rest)
          | _ =>
            (inlineTail (value depth) (rest.length + 1) [] rest).map fun (entries, rest) =>
              (.table .inline entries, rest)
      else if c = 't' then word "true".toList (.boolean true) cs
      else if c = 'f' then word "false".toList (.boolean false) cs
      else number cs

/-- A header between brackets, single or double. -/
def header : Scan Header := fun cs =>
  match cs with
  | '[' :: '[' :: rest => do
    let (keys, rest) ← dottedKey maxDepth rest
    let (path, key) ← splitLast keys
    return ({ path, key, isRepeated := true }, ← mark ']' (← mark ']' rest))
  | '[' :: rest => do
    let (keys, rest) ← dottedKey maxDepth rest
    let (path, key) ← splitLast keys
    return ({ path, key, isRepeated := false }, ← mark ']' rest)
  | _ => none

/-- The lines of a document from some point on; the fuel bounds their number. -/
def lines : Nat → Draft → List Char → Option Entries
  | 0, _, _ => none
  | fuel + 1, d, cs =>
    match skipBlanks cs with
    | [] => d.close
    | c :: rest =>
      if c = '#' || c = '\n' || c = '\r' then do
        lines fuel d (← endLine? (c :: rest))
      else if c = '[' then do
        let (h, rest) ← header (c :: rest)
        lines fuel (← d.openTable h) (← endLine? rest)
      else do
        let ((path, key, node), rest) ← keyValue (value maxDepth) (c :: rest)
        lines fuel (← d.assign path key node) (← endLine? rest)

/-- The entries of a document. A byte order mark in front is passed over. -/
def parse? (text : String) : Option Entries :=
  let cs := match text.toList with
    | c :: cs => if c.toNat = 0xFEFF then cs else c :: cs
    | [] => []
  lines (cs.length + 1) {} cs

end StackMachine.Toml
