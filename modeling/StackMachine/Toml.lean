/-! TOML documents as nested tables. Options leave documents to a library, of which is assumed what
this module and those of the reader spell out: a table is not defined twice, a dotted key or a
header only adds to tables that are still open to it, and integers are signed words of 64 bits. -/
namespace StackMachine.Toml

/-- How a table came to be, which decides what may still be added to it. -/
inductive Origin where
  /-- By a header of its own. -/
  | header
  /-- As a step on the way to the table of a header. -/
  | implied
  /-- As a step of a dotted key. -/
  | dotted
  /-- As a value between braces, complete from the start. -/
  | inline
deriving DecidableEq, Repr

/-- A value of a document. Of a date or a time only the presence is kept. -/
inductive Node where
  | string (value : String)
  | integer (value : Int64)
  | float (value : Float)
  | boolean (value : Bool)
  | moment
  | array (items : List Node)
  | table (origin : Origin) (entries : List (String × Node))
  /-- The tables of repeated headers; the last one is still open. -/
  | tables (blocks : List (List (String × Node)))

/-- The entries of a table in the order of their definition. -/
abbrev Entries := List (String × Node)

namespace Entries

/-- The value of a key. -/
def get? (t : Entries) (key : String) : Option Node := (t.find? (·.1 = key)).map (·.2)

/-- Replaces the value of a key that is there. -/
def replace (t : Entries) (key : String) (value : Node) : Entries :=
  t.map fun e => if e.1 = key then (key, value) else e

/-- Takes an entry out. -/
def erase (t : Entries) (key : String) : Entries := t.filter (·.1 ≠ key)

/-- Gives a new key a value. The tables on the way are those of a dotted key: only what dotted keys
or the ways to headers made may be extended, and the last one only if dotted keys made it. -/
def assign (t : Entries) (path : List String) (key : String) (value : Node) : Option Entries :=
  match path with
  | [] => if (t.get? key).isSome then none else some (t ++ [(key, value)])
  | k :: ks =>
    match t.get? k with
    | none => do
      let sub ← assign [] ks key value
      return t ++ [(k, .table .dotted sub)]
    | some (.table origin sub) =>
      if origin = .dotted || (origin = .implied && !ks.isEmpty) then do
        return t.replace k (.table origin (← assign sub ks key value))
      else none
    | some (.tables blocks) =>
      if ks.isEmpty then none
      else do
        let last ← blocks.getLast?
        return t.replace k (.tables (blocks.dropLast ++ [← assign last ks key value]))
    | some _ => none

/-- Changes the table at the end of the way to a header and makes the tables that are missing on
the way. -/
def within {β : Type} (t : Entries) (path : List String) (change : Entries → Option (Entries × β)) :
    Option (Entries × β) :=
  match path with
  | [] => change t
  | k :: ks =>
    match t.get? k with
    | none => do
      let (sub, b) ← within [] ks change
      return (t ++ [(k, .table .implied sub)], b)
    | some (.table origin sub) =>
      if origin = .inline then none
      else do
        let (sub, b) ← within sub ks change
        return (t.replace k (.table origin sub), b)
    | some (.tables blocks) => do
      let (sub, b) ← within (← blocks.getLast?) ks change
      return (t.replace k (.tables (blocks.dropLast ++ [sub])), b)
    | some _ => none

end Entries

/-- The header of a table, or of one more table of an array. -/
structure Header where
  path : List String
  key : String
  isRepeated : Bool

/-- A document that is being read: the finished tables, and the open one with its header. -/
structure Draft where
  root : Entries := []
  header : Option Header := none
  current : Entries := []

namespace Draft

/-- Adds a value to the open table. -/
def assign (d : Draft) (path : List String) (key : String) (value : Node) : Option Draft := do
  return { d with current := ← d.current.assign path key value }

/-- The finished tables with the open one put in its place. -/
def close (d : Draft) : Option Entries :=
  match d.header with
  | none => some d.current
  | some h => do
    let (root, _) ← d.root.within h.path fun t =>
      match h.isRepeated, t.get? h.key with
      | false, none => some (t ++ [(h.key, .table .header d.current)], ())
      | true, none => some (t ++ [(h.key, .tables [d.current])], ())
      | true, some (.tables blocks) =>
        some (t.replace h.key (.tables (blocks ++ [d.current])), ())
      | _, _ => none
    return root

/-- Closes the open table and opens the one of a header. A table that is only a step on the way to
others may get a header; any other table may not be opened again. -/
def openTable (d : Draft) (h : Header) : Option Draft := do
  let (root, current) ← (← d.close).within h.path fun t =>
    match h.isRepeated, t.get? h.key with
    | _, none => some (t, [])
    | false, some (.table .implied sub) => some (t.erase h.key, sub)
    | true, some (.tables _) => some (t, [])
    | _, _ => none
  return { root, header := some h, current }

end Draft
end StackMachine.Toml
