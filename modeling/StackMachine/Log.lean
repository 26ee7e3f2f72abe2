/-! Messages, their severities, and results that come with messages. -/
namespace StackMachine

/-- How severe a message is, from the most to the least severe. -/
inductive Severity where
  | fatal
  | error
  | warn
  | info
  | debug
deriving DecidableEq, Repr

namespace Severity

/-- Every severity, the most severe first. -/
def all : List Severity := [.fatal, .error, .warn, .info, .debug]

def name : Severity → String
  | .fatal => "fatal"
  | .error => "error"
  | .warn => "warn"
  | .info => "info"
  | .debug => "debug"

/-- The severity of a name. -/
def ofName? (name : String) : Option Severity := all.find? (·.name = name)

/-- The mark in front of a message. -/
def text : Severity → String
  | .fatal => "[FATAL]"
  | .error => "[ERROR]"
  | .warn => "[WARN]"
  | .info => "[INFO]"
  | .debug => "[DEBUG]"

/-- The place in the order of severities; zero is the most severe. -/
def rank : Severity → Nat
  | .fatal => 0
  | .error => 1
  | .warn => 2
  | .info => 3
  | .debug => 4

instance : Ord Severity := ⟨fun a b => compare a.rank b.rank⟩

/-- Whether a severity passes a threshold. -/
def passes (s threshold : Severity) : Bool := s.rank ≤ threshold.rank

end Severity

/-- A message of some severity. -/
structure Message where
  severity : Severity
  content : String
deriving DecidableEq, Repr

/-- The line that shows a message. -/
def Message.text (m : Message) : String := m.severity.text ++ " " ++ m.content

/-- A result and the messages given on the way to it, the first one first. -/
structure Logged (α : Type) where
  value : α
  messages : List Message := []
deriving DecidableEq

namespace Logged
instance : Monad Logged where
  pure a := ⟨a, []⟩
  bind x f := ⟨(f x.value).value, x.messages ++ (f x.value).messages⟩

/-- Without its messages, a fold with messages is a plain one. -/
theorem value_foldlM {α β : Type} (f : β → α → Logged β) (init : β) (l : List α) :
    (l.foldlM f init).value = l.foldl (fun b a => (f b a).value) init := by
  induction l generalizing init with
  | nil => rfl
  | cons a l ih => exact ih _

/-- Gives one message. -/
def tell (severity : Severity) (content : String) : Logged Unit := ⟨(), [⟨severity, content⟩]⟩

/-- Gives one message if a condition holds. -/
def tellIf (condition : Bool) (severity : Severity) (content : String) : Logged Unit :=
  if condition then tell severity content else pure ()

end Logged
end StackMachine
