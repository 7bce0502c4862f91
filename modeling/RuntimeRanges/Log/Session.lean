import RuntimeRanges.Log.Level
import RuntimeRanges.Log.Rendering

/-!
Log sessions. The level is settled by the first request for it or by the first event, whichever comes first;
from then on only a request with a known level changes it. An event is shown when its severity reaches the
level, and only then it is rendered, which its values may prevent. A few names cannot be those of an event's
values; an event with one of them is refused. It has settled the level all the same.
-/

namespace RuntimeRanges.Log

def Severity.ofName? (name : String) : Option Severity :=
  [.debug, .info, .warning, .error, .critical].find? (·.name = name)

/-- What an event is made of: its severity and name, the values of its surroundings and of its own, and how deep
values can be nested where it is rendered. -/
structure Draft where
  severity : Severity
  name : String
  surroundings : List (Scalar × Document) := []
  own : List (Scalar × Document) := []
  room : Nat
  deriving Repr

/-- Why a draft makes no event: a value has a name that is taken. -/
inductive TakenName
  | surroundings (key : String)
  | own (severity : Severity) (key : String)
  | method (key : String)
  deriving DecidableEq, Repr

def TakenName.message : TakenName → String
  | surroundings key => "BoundLoggerLazyProxy.bind() got multiple values for argument '" ++ key ++ "'"
  | own severity key => "BoundLogger." ++ severity.name ++ "() got multiple values for argument '" ++ key ++ "'"
  | method key => "BoundLogger._proxy_to_logger() got multiple values for argument '" ++ key ++ "'"

namespace Draft

def firstTaken? (taken : List String) (fields : List (Scalar × Document)) : Option String :=
  fields.findSome? fun (key, _) => taken.find? fun name => key = .text name

/-- The name that is taken, if there is one: the surroundings are looked at first. -/
def taken? (d : Draft) : Option TakenName :=
  ((firstTaken? ["self"] d.surroundings).map .surroundings).or <|
    ((firstTaken? ["self", "event"] d.own).map (.own d.severity)).or <|
      (firstTaken? ["method_name"] d.own).map .method

/-- The event of a draft, whose own values win over those of its surroundings. -/
def event (d : Draft) : Except TakenName Event :=
  match d.taken? with
  | some t => .error t
  | none => .ok ⟨d.severity, d.name, Document.setFields d.surroundings d.own⟩

/-- Why a draft shows no event that should be shown. -/
inductive Refusal
  | name (t : TakenName)
  | rendering (f : RenderFault)
  deriving DecidableEq, Repr

def Refusal.message : Refusal → String
  | name t => t.message
  | rendering f => f.message

def emit (d : Draft) (level : Nat) : Except Refusal (List Event) :=
  match d.event with
  | .error t => .error (.name t)
  | .ok e =>
    if e.severity.shownAt level then
      match e.renderFault? d.room with
      | none => .ok [e]
      | some f => .error (.rendering f)
    else .ok []

end Draft

/-- The state of logging: its level, whether that has been settled, and the value of the variable for it. -/
structure Session where
  level : Nat := defaultLevel
  configured : Bool := false
  setting : Option String := none
  deriving DecidableEq, Repr

namespace Session

/-- What happens in a session. -/
inductive Step
  | setVariable (value : Option String)
  | configure (level : Option String)
  | emit (d : Draft)
  deriving Repr

inductive Fault
  | level (e : UnknownLevel)
  | draft (r : Draft.Refusal)
  deriving DecidableEq, Repr

def Fault.message : Fault → String
  | level e => e.message
  | draft r => r.message

/-- Settles the level, or changes it to the one that is asked for. -/
def configure (s : Session) (asked : Option String) : Except UnknownLevel Session :=
  if s.configured then
    match asked with
    | none => .ok s
    | some name => (levelNamed name).map ({ s with level := · })
  else (chooseLevel asked s.setting).map ({ s with level := ·, configured := true })

/-- The session with its level settled. -/
def start (s : Session) : Session :=
  if s.configured then s else { s with level := levelOfVariable s.setting, configured := true }

/-- The session after a step, and the events that the step shows or why it fails. -/
def step (s : Session) : Step → Session × Except Fault (List Event)
  | .setVariable value => ({ s with setting := value }, .ok [])
  | .configure asked =>
    match s.configure asked with
    | .ok s => (s, .ok [])
    | .error e => (s, .error (.level e))
  | .emit d => (s.start, (d.emit s.start.level).mapError .draft)

/-- The session after a step, whether the step fails or not. -/
def after (s : Session) (t : Step) : Session :=
  (s.step t).1

def run (s : Session) (steps : List Step) : Session :=
  steps.foldl after s

@[simp]
theorem run_nil (s : Session) : s.run [] = s := rfl

@[simp]
theorem run_cons (s : Session) (t : Step) (steps : List Step) : s.run (t :: steps) = (s.after t).run steps :=
  rfl

example :
    run {} [.configure (some "loud"), .setVariable (some "info"), .configure none] =
      { level := 20, configured := true, setting := some "info" } := by
  decide +kernel

theorem configure_none (s : Session) : s.configure none = .ok s.start := by
  unfold configure start
  split <;> rfl

end Session

end RuntimeRanges.Log
