import RuntimeRanges.Version
import RuntimeRanges.Text.Blank

/-!
The spelling of a version: its text cut into operators and pieces, before the pieces are read as numbers.
Cutting is the grammar alone; what the pieces mean is decided afterwards.
-/

namespace RuntimeRanges

/-- An operator as written; only two of them are admitted in the end. -/
inductive OperatorToken
  | less
  | lessEqual
  | greater
  | greaterEqual
  deriving DecidableEq, Repr

def OperatorToken.chars : OperatorToken → List Char
  | less => ['<']
  | lessEqual => ['<', '=']
  | greater => ['>']
  | greaterEqual => ['>', '=']

def OperatorToken.side? : OperatorToken → Option Side
  | lessEqual => some .atMost
  | greaterEqual => some .atLeast
  | _ => none

/-- Three pieces of text in the places of a version. -/
structure Pieces where
  major : List Char
  minor : List Char
  patch : List Char
  deriving DecidableEq, Repr

/-- Characters of a piece: all but the point, the underscore and blanks. -/
def isPieceChar (c : Char) : Bool :=
  c != '.' && c != '_' && !Text.isBlank c

/-- A piece is a text without separators that is not empty. -/
def IsPiece (cs : List Char) : Prop :=
  cs ≠ [] ∧ ∀ c ∈ cs, isPieceChar c = true

namespace Pieces

def chars (p : Pieces) : List Char :=
  p.major ++ '.' :: p.minor ++ '.' :: p.patch

def WellFormed (p : Pieces) : Prop :=
  IsPiece p.major ∧ IsPiece p.minor ∧ IsPiece p.patch

end Pieces

/-- A piece at the front of a text, and what follows. -/
def takePiece? (cs : List Char) : Option (List Char × List Char) :=
  let piece := cs.takeWhile isPieceChar
  if piece.isEmpty then none else some (piece, cs.dropWhile isPieceChar)

/-- A given character at the front of a text, and what follows. -/
def takeChar? (expected : Char) : List Char → Option (List Char)
  | [] => none
  | c :: cs => if c = expected then some cs else none

/-- Three pieces at the front of a text, and what follows. -/
def takePieces? (cs : List Char) : Option (Pieces × List Char) := do
  let (major, cs) ← takePiece? cs
  let cs ← takeChar? '.' cs
  let (minor, cs) ← takePiece? cs
  let cs ← takeChar? '.' cs
  let (patch, cs) ← takePiece? cs
  return (⟨major, minor, patch⟩, cs)

/-- An operator at the front of a text, and what follows. -/
def takeOperator? : List Char → Option (OperatorToken × List Char)
  | '<' :: '=' :: cs => some (.lessEqual, cs)
  | '>' :: '=' :: cs => some (.greaterEqual, cs)
  | '<' :: cs => some (.less, cs)
  | '>' :: cs => some (.greater, cs)
  | _ => none

/-- A version's text cut at its operators and points. -/
structure Spelling where
  operator : Option OperatorToken
  pieces : Pieces
  bound : Option (OperatorToken × Pieces)
  deriving DecidableEq, Repr

namespace Spelling

def boundChars : Option (OperatorToken × Pieces) → List Char
  | none => []
  | some (operator, pieces) => '_' :: operator.chars ++ 'v' :: pieces.chars

def chars (s : Spelling) : List Char :=
  (s.operator.map OperatorToken.chars).getD [] ++ 'v' :: s.pieces.chars ++ boundChars s.bound

def WellFormed (s : Spelling) : Prop :=
  s.pieces.WellFormed ∧ ∀ b ∈ s.bound, b.2.WellFormed

/-- Cuts a second bound, which has to be all that is left. -/
def bound? : List Char → Option (Option (OperatorToken × Pieces))
  | [] => some none
  | cs => do
    let cs ← takeChar? '_' cs
    let (operator, cs) ← takeOperator? cs
    let cs ← takeChar? 'v' cs
    let (pieces, cs) ← takePieces? cs
    if cs.isEmpty then some (some (operator, pieces)) else none

def ofChars? (cs : List Char) : Option Spelling := do
  let (operator, cs) :=
    match takeOperator? cs with
    | some (operator, cs) => (some operator, cs)
    | none => (none, cs)
  let cs ← takeChar? 'v' cs
  let (pieces, cs) ← takePieces? cs
  let bound ← bound? cs
  return ⟨operator, pieces, bound⟩

end Spelling

/-- Cuts three pieces that are the whole text. -/
def Pieces.ofChars? (cs : List Char) : Option Pieces :=
  match takePieces? cs with
  | some (pieces, []) => some pieces
  | _ => none

/-- Cuts the text of a target: three pieces with an optional `v` in front, which belongs to the first piece
where the text cannot be cut without it. -/
def Pieces.ofTarget? (cs : List Char) : Option Pieces :=
  ((takeChar? 'v' cs).bind Pieces.ofChars?).or (Pieces.ofChars? cs)

end RuntimeRanges
