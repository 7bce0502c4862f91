import RuntimeRanges.Text.Blank
import RuntimeRanges.Text.UpperCase

/-!
Log levels by name. A level that is asked for has to be known; one that a variable names may be unknown and
then counts as not given.
-/

namespace RuntimeRanges.Log

def levelNames : List (String × Nat) :=
  [ ("CRITICAL", 50), ("FATAL", 50), ("ERROR", 40), ("WARNING", 30), ("WARN", 30), ("INFO", 20),
    ("DEBUG", 10), ("NOTSET", 0) ]

def defaultLevel : Nat := 30

def levelVariable : String := "LIBDEF_RESOLVER_LOG_LEVEL"

/-- A name as levels are looked up by: in upper case and without blanks around it. -/
def levelKey (name : String) : String :=
  String.ofList (Text.upper (Text.trim name.toList))

/-- The level with a name, in any case. -/
def level? (name : String) : Option Nat :=
  levelNames.lookup (levelKey name)

/-- A name that no level has. -/
structure UnknownLevel where
  name : String
  deriving DecidableEq, Repr

def UnknownLevel.message (e : UnknownLevel) : String :=
  "Unknown log level: " ++ e.name

/-- The level with a name that has to be known. -/
def levelNamed (name : String) : Except UnknownLevel Nat :=
  match level? name with
  | some n => .ok n
  | none => .error ⟨levelKey name⟩

/-- The level that the value of the variable gives. -/
def levelOfVariable (value : Option String) : Nat :=
  (value.bind level?).getD defaultLevel

/-- The level for a start: the one that is asked for, else that of the variable. -/
def chooseLevel (asked value : Option String) : Except UnknownLevel Nat :=
  match asked with
  | some name => levelNamed name
  | none => .ok (levelOfVariable value)

theorem levelNamed_eq_ok_iff {name : String} {n : Nat} : levelNamed name = .ok n ↔ level? name = some n := by
  unfold levelNamed
  split <;> simp_all

example : level? " Warn\n" = some 30 ∧ level? "10" = none ∧ level? "" = none := by decide +kernel

end RuntimeRanges.Log
