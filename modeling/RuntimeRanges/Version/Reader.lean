import RuntimeRanges.Version.Spelling

/-!
Reading versions: range names, the names of definition directories, and targets. Reading fails with a fault
that carries the text, or because a number has too many digits; the first check that fails decides.
-/

namespace RuntimeRanges

namespace Version

def grammar : String :=
  "^([<>]=?)?v([^._\\s]+)\\.([^._\\s]+)\\.([^._\\s]+)(?:_([<>]=?)v([^._\\s]+)\\.([^._\\s]+)\\.([^._\\s]+))?$"

def targetGrammar : String :=
  "^v?([^._\\s]+)\\.([^._\\s]+)\\.([^._\\s]+)$"

/-- What is wrong with the text of a version. -/
inductive Cause
  | malformed (expected : Scalar)
  | operator (token : OperatorToken) (upper : Bool)
  | number (slot : Slot) (upper : Bool)
  | nonsensical
  deriving DecidableEq, Repr

/-- A text that is not a version, and why. The text is one of a document, or a string. -/
structure Fault where
  text : Scalar
  cause : Cause
  deriving DecidableEq, Repr

/-- The name of a place, of the version itself or of its second bound. -/
def componentName (slot : Slot) (upper : Bool) : String :=
  (if upper then "upper-bound " else "") ++ slot.name

/-- The wording of a fault, as a text of a document. -/
def Fault.wording (f : Fault) : Scalar :=
  match f.cause with
  | .malformed expected =>
    .joined
      [f.text, " is a malformed version string. Expected a version formatted as \x60", expected, "\x60"]
  | .operator token upper =>
    .joined
      [ "'", f.text, "': Invalid version ", if upper then "upper-bound range" else "range", ": ",
        String.ofList token.chars ]
  | .number slot upper =>
    .joined [f.text, ": Invalid ", componentName slot upper, " number. Expected a number."]
  | .nonsensical => .joined ["It doesn't make sense to have a version range of '", f.text, "'!"]

/-- Why a version cannot be read. -/
inductive ReadError
  | fault (f : Fault)
  | numeral (e : Numeral.LimitError)
  deriving DecidableEq, Repr

def ReadError.wording : ReadError → Scalar
  | fault f => f.wording
  | numeral e => .text e.message

/-- Demands one of the two operators that are admitted. -/
def readSide (text : Scalar) (upper : Bool) (token : OperatorToken) : Except ReadError Side :=
  match token.side? with
  | some side => .ok side
  | none => .error (.fault ⟨text, .operator token upper⟩)

/-- Reads a number, of ASCII digits only. -/
def readNumber (text : Scalar) (slot : Slot) (upper : Bool) (piece : List Char) :
    Except ReadError Component :=
  if piece.all Char.isDigit then
    match Numeral.read piece with
    | .ok n => .ok (.number n)
    | .error e => .error (.numeral e)
  else .error (.fault ⟨text, .number slot upper⟩)

def readComponent (text : Scalar) (slot : Slot) (upper : Bool) (piece : List Char) :
    Except ReadError Component :=
  if piece = ['x'] then .ok .wildcard else readNumber text slot upper piece

/-- Reads three pieces; the first of them is never a wildcard. -/
def readParts (text : Scalar) (upper : Bool) (p : Pieces) : Except ReadError Parts := do
  let major ← readNumber text .major upper p.major
  let minor ← readComponent text .minor upper p.minor
  let patch ← readComponent text .patch upper p.patch
  return ⟨major, minor, patch⟩

/-- Reads the operator in front of a version, which may be absent. -/
def readFirstSide (text : Scalar) : Option OperatorToken → Except ReadError (Option Side)
  | none => .ok none
  | some token => (readSide text false token).map some

/-- Reads the operator in front of a second bound, where there is one. -/
def readBoundSide (text : Scalar) :
    Option (OperatorToken × Pieces) → Except ReadError (Option (Side × Pieces))
  | none => .ok none
  | some (token, pieces) => (readSide text true token).map fun side => some (side, pieces)

/-- Reads a text that is cut into pieces. The operators come first, then the version's own numbers. Without
a second bound the limit `<=v0.0.0` is refused; with one its numbers are read, and an exact version refuses
it. -/
def ofSpelling (text : Scalar) (s : Spelling) : Except ReadError Version := do
  let side? ← readFirstSide text s.operator
  let bound ← readBoundSide text s.bound
  let parts ← readParts text false s.pieces
  match bound with
  | none =>
    if side? = some .atMost ∧ parts = .ofNumbers 0 0 0 then .error (.fault ⟨text, .nonsensical⟩)
    else return single side? parts
  | some (boundSide, pieces) => do
    let boundParts ← readParts text true pieces
    match side? with
    | none => .error (.fault ⟨text, .malformed grammar⟩)
    | some side => return pair ⟨side, parts⟩ ⟨boundSide, boundParts⟩

/-- Reads a range name. A code point that stands for no character can only be a part of a piece, and no number
has it. -/
def read (text : Scalar) : Except ReadError Version :=
  match Spelling.ofChars? text.plain.toList with
  | none => .error (.fault ⟨text, .malformed grammar⟩)
  | some s => ofSpelling text s

def defaultPrefix : String := "flow_"

/-- Reads the name of a definition directory: a range name after the given beginning. -/
def readDirectoryName (start name : Scalar) : Except ReadError Version :=
  match Text.dropStart? start.codes name.codes with
  | none => .error (.fault ⟨name, .malformed (.joined [start, grammar])⟩)
  | some rest => read (.ofCodes rest)

/-- Reads a target: an exact version, with or without `v`, whatever blanks stand around it. -/
def readTarget (text : String) : Except ReadError Version :=
  match Pieces.ofTarget? (Text.trim text.toList) with
  | none => .error (.fault ⟨text, .malformed targetGrammar⟩)
  | some pieces => (readParts text false pieces).map exact

end Version

end RuntimeRanges
