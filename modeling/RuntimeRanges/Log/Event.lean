import RuntimeRanges.Document

/-!
Log events: what happened, how severe it is, and the values that go with it.
-/

namespace RuntimeRanges.Log

inductive Severity
  | debug
  | info
  | warning
  | error
  | critical
  deriving DecidableEq, Repr

/-- The number that a severity is compared by. -/
def Severity.rank : Severity → Nat
  | debug => 10
  | info => 20
  | warning => 30
  | error => 40
  | critical => 50

def Severity.name : Severity → String
  | debug => "debug"
  | info => "info"
  | warning => "warning"
  | error => "error"
  | critical => "critical"

/-- An event. -/
structure Event where
  severity : Severity
  name : String
  fields : List (Scalar × Document)
  deriving Repr

def Severity.shownAt (s : Severity) (level : Nat) : Bool :=
  level ≤ s.rank

def shown (level : Nat) (events : List Event) : List Event :=
  events.filter (·.severity.shownAt level)

/-- The event with its name and severity among its values. The time of an event is not part of it. -/
def Event.toDocument (e : Event) : Document :=
  let fields := e.fields.filter fun (key, _) => key ≠ .text "timestamp"
  .object (Document.setField "level" (.text e.severity.name) (Document.setField "event" (.text e.name) fields))

def Event.debug (name : String) (fields : List (Scalar × Document)) : Event :=
  ⟨.debug, name, fields⟩

end RuntimeRanges.Log
