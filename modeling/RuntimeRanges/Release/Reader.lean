import RuntimeRanges.Release
import RuntimeRanges.Text.Blank

/-!
Reading releases. The text is first cut into the digits and words of its parts, and then the digits are read;
case does not matter, blanks may stand around the text, and parts may be joined by `-`, `_` or `.`.
-/

namespace RuntimeRanges.Release

/-- Why a release cannot be read. -/
inductive ReadError
  | invalid
  | numeral (e : Numeral.LimitError)
  deriving DecidableEq, Repr

/-- The text of a release cut into its parts, numbers still as digits. A missing number is no digits. -/
structure Spelling where
  epoch : List Char
  numbers : List (List Char)
  pre : Option (Stage × List Char)
  post : Option (List Char)
  dev : Option (List Char)
  localParts : List (List Char)
  deriving DecidableEq, Repr

def isJoint (c : Char) : Bool :=
  c == '-' || c == '_' || c == '.'

def skipJoint : List Char → List Char
  | [] => []
  | c :: cs => if isJoint c then cs else c :: cs

def takeDigits (cs : List Char) : List Char × List Char :=
  (cs.takeWhile Char.isDigit, cs.dropWhile Char.isDigit)

/-- The first of the words that stands at the front, with what it means and what follows. -/
def takeWord? {α : Type} (vocabulary : List (String × α)) (cs : List Char) : Option (α × List Char) :=
  vocabulary.findSome? fun (word, meaning) => (Text.dropStart? word.toList cs).map (meaning, ·)

/-- The words for the stages of a pre-release; a word comes before its own beginnings. -/
def stageWords : List (String × Stage) :=
  [ ("alpha", .alpha), ("a", .alpha), ("beta", .beta), ("b", .beta), ("preview", .candidate),
    ("pre", .candidate), ("c", .candidate), ("rc", .candidate) ]

def postWords : List (String × Unit) :=
  [("post", ()), ("rev", ()), ("r", ())]

def devWords : List (String × Unit) :=
  [("dev", ())]

/-- A word with an optional number, and optional joints in front of both. -/
def takePart? {α : Type} (vocabulary : List (String × α)) (cs : List Char) :
    Option ((α × List Char) × List Char) := do
  let (meaning, rest) ← takeWord? vocabulary (skipJoint cs)
  let (digits, rest) := takeDigits (skipJoint rest)
  return ((meaning, digits), rest)

def optional {α : Type} (part : Option (α × List Char)) (cs : List Char) : Option α × List Char :=
  match part with
  | some (a, rest) => (some a, rest)
  | none => (none, cs)

/-- An epoch at the front, which ends with an exclamation mark. -/
def takeEpoch (cs : List Char) : List Char × List Char :=
  match takeDigits cs with
  | ([], _) => ([], cs)
  | (digits, '!' :: rest) => (digits, rest)
  | _ => ([], cs)

/-- A run of digits, the further runs that points join to it, and what follows. -/
def takeNumbers : List Char → List Char × List (List Char) × List Char
  | '.' :: c :: cs =>
    if c.isDigit then
      let (run, more, rest) := takeNumbers cs
      ([], (c :: run) :: more, rest)
    else ([], [], '.' :: c :: cs)
  | c :: cs =>
    if c.isDigit then
      let (run, more, rest) := takeNumbers cs
      (c :: run, more, rest)
    else ([], [], c :: cs)
  | [] => ([], [], [])

/-- A post-release: a number after a hyphen, or one of the words. -/
def takePost? : List Char → Option (List Char × List Char)
  | '-' :: c :: cs =>
    if c.isDigit then some (takeDigits (c :: cs))
    else (takePart? postWords ('-' :: c :: cs)).map fun ((_, digits), rest) => (digits, rest)
  | cs => (takePart? postWords cs).map fun ((_, digits), rest) => (digits, rest)

def isLocalChar (c : Char) : Bool :=
  c.isDigit || ('a' ≤ c && c ≤ 'z')

/-- The pieces of a local part, in which no joint stands at an end or next to another. -/
def localPieces? (cs : List Char) : Option (List (List Char)) :=
  let pieces := Text.splitAt '.' (cs.map fun c => if isJoint c then '.' else c)
  if pieces.all fun piece => !piece.isEmpty && piece.all isLocalChar then some pieces else none

def takeLocal? : List Char → Option (List (List Char))
  | [] => some []
  | '+' :: cs => localPieces? cs
  | _ => none

/-- Cuts a text in lower case and without blanks around it. -/
def Spelling.ofChars? (cs : List Char) : Option Spelling :=
  let cs := (Text.dropStart? ['v'] cs).getD cs
  let (epoch, cs) := takeEpoch cs
  let (run, more, cs) := takeNumbers cs
  if run.isEmpty then none
  else
    let (pre, cs) := optional (takePart? stageWords cs) cs
    let (post, cs) := optional (takePost? cs) cs
    let (dev, cs) := optional (takePart? devWords cs) cs
    (takeLocal? cs).map fun localParts => ⟨epoch, run :: more, pre, post, dev.map Prod.snd, localParts⟩

/-- Reads digits; the numbers have to have few enough of them. -/
def readDigits (digits : List Char) : Except ReadError Nat :=
  (Numeral.read digits).mapError .numeral

def readOptional : Option (List Char) → Except ReadError (Option Nat)
  | none => .ok none
  | some digits => (readDigits digits).map some

def readAll : List (List Char) → Except ReadError (List Nat)
  | [] => .ok []
  | digits :: rest => do
    let n ← readDigits digits
    let ns ← readAll rest
    return n :: ns

/-- Reads the pieces of a local part; those of digits alone are numbers. -/
def readLocal : List (List Char) → Except ReadError (List LocalPart)
  | [] => .ok []
  | piece :: rest => do
    let part ← if piece.all Char.isDigit then (readDigits piece).map .number else .ok (.text piece)
    let parts ← readLocal rest
    return part :: parts

/-- Reads the numbers of a text that is cut into its parts. -/
def ofSpelling (s : Spelling) : Except ReadError Release := do
  let epoch ← readDigits s.epoch
  let numbers ← readAll s.numbers
  let preNumber ← readOptional (s.pre.map Prod.snd)
  let post ← readOptional s.post
  let dev ← readOptional s.dev
  let localParts ← readLocal s.localParts
  return ⟨epoch, numbers, s.pre.map fun (stage, _) => (stage, preNumber.getD 0), post, dev, localParts⟩

def read (cs : List Char) : Except ReadError Release :=
  match Spelling.ofChars? ((Text.trim cs).map Char.toLower) with
  | none => .error .invalid
  | some s => ofSpelling s

end RuntimeRanges.Release
