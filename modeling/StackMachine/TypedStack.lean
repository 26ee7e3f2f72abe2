import StackMachine.Contents
import StackMachine.Operation
import StackMachine.Text.Quoted

/-! Stacks together with the operations they offer. -/
namespace StackMachine

/-- Contents of one kind and the operations that can be called on them. -/
structure TypedStack (X : Type) where
  contents : Contents
  operations : OperationTable X

namespace TypedStack
variable {X : Type}

/-- An empty stack of a kind with its standard operations. -/
def standard (kind : Kind) : TypedStack X := ⟨.empty kind, .standard kind⟩

/-- An empty stack of a kind with the common operations and the given ones, which win over common
ones of the same name. -/
def withOperations (kind : Kind) (operations : OperationTable X) : TypedStack X :=
  ⟨.empty kind, OperationTable.common.insertAll operations.entries⟩

def kind (t : TypedStack X) : Kind := t.contents.kind

/-- Changes the contents and keeps the operations. -/
def mapContents (f : Contents → Contents) (t : TypedStack X) : TypedStack X :=
  { t with contents := f t.contents }

/-- Pushes the elements of the right kind, the first of them first. -/
def pushAll (elements : List Element) (t : TypedStack X) : TypedStack X :=
  t.mapContents fun c => elements.foldl Contents.push c

/-- Pushes what a token denotes as a literal of the stack's kind, if anything. -/
def pushLiteral (token : String) (t : TypedStack X) : TypedStack X :=
  match t.kind.parse? token with
  | some e => t.mapContents (·.push e)
  | none => t

/-- Gives the stack an operation, replacing an earlier one of that name. -/
def addOperation (name : String) (op : Operation X) (t : TypedStack X) : TypedStack X :=
  { t with operations := t.operations.insert name op }

/-- A description of the contents and of the names of the operations. -/
def text (t : TypedStack X) : String :=
  "DataStack \x7b store: " ++ t.contents.text ++ ", operations: ["
    ++ String.intercalate ", " (t.operations.names.map Text.quoted) ++ "] \x7d"

end TypedStack
end StackMachine
