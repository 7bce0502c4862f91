import RuntimeRanges.Interval
import RuntimeRanges.Release.Reader
import RuntimeRanges.Text.Quoted

/-!
Partial versions, the operands of comparators: up to three numbers, of which the rest may be missing or
wildcards. A full one is a release of its own.
-/

namespace RuntimeRanges

namespace Range

/-- Why a range or the release to test cannot be read. -/
inductive ReadError
  | release (text : List Char)
  | operand (text : List Char)
  | numeral (e : Numeral.LimitError)
  deriving DecidableEq, Repr

def ReadError.message : ReadError → String
  | release text => "Invalid version: " ++ Text.quoted (String.ofList text)
  | operand text => "Invalid version in range: " ++ Text.quoted (String.ofList text)
  | numeral e => e.message

def readRelease (cs : List Char) : Except ReadError Release :=
  match Release.read cs with
  | .ok r => .ok r
  | .error .invalid => .error (.release cs)
  | .error (.numeral e) => .error (.numeral e)

/-- A version of which only the leading numbers may be known. -/
inductive Partial
  | any
  | major (major : Nat)
  | minor (major minor : Nat)
  | full (major minor patch : Nat) (release : Release)
  deriving DecidableEq, Repr

namespace Partial

def numbers : Partial → List Nat
  | any => []
  | major a => [a]
  | minor a b => [a, b]
  | full a b c _ => [a, b, c]

/-- The first release that the partial version stands for. -/
def floor : Partial → Release
  | any => .origin
  | major a => .ofNumbers a 0 0
  | minor a b => .ofNumbers a b 0
  | full _ _ _ release => release

/-- The successor of a number, which has to have a numeral. -/
def next (n : Nat) : Except ReadError Nat :=
  match Numeral.write (n + 1) with
  | .ok _ => .ok (n + 1)
  | .error e => .error (.numeral e)

def nextMajor (a : Nat) : Except ReadError Release :=
  (next a).map fun a => .ofNumbers a 0 0

def nextMinor (a b : Nat) : Except ReadError Release :=
  (next b).map fun b => .ofNumbers a b 0

def nextPatch (a b c : Nat) : Except ReadError Release :=
  (next c).map fun c => .ofNumbers a b c

/-- The first release past everything that the partial version stands for. -/
def ceiling? : Partial → Except ReadError (Option Release)
  | any => .ok none
  | major a => (nextMajor a).map some
  | minor a b => (nextMinor a b).map some
  | full a b c _ => (nextPatch a b c).map some

/-- A place of a partial version: digits, or a wildcard. -/
inductive Place
  | digits (cs : List Char)
  | wildcard
  deriving DecidableEq, Repr

/-- A place at the front of a text, and what follows. -/
def takePlace? : List Char → Option (Place × List Char)
  | [] => none
  | c :: cs =>
    if c = 'x' ∨ c = 'X' ∨ c = '*' then some (.wildcard, cs)
    else if Text.isDecimal c then
      some (.digits ((c :: cs).takeWhile Text.isDecimal), (c :: cs).dropWhile Text.isDecimal)
    else none

/-- A further place after a point; without one it counts as a wildcard. -/
def takeFurther (cs : List Char) : Place × List Char :=
  match (Text.dropStart? ['.'] cs).bind takePlace? with
  | some found => found
  | none => (.wildcard, cs)

def isTagChar (c : Char) : Bool :=
  c.isAlphanum || c == '.' || c == '-'

/-- A tag after the given character; it is empty where the character does not stand at the front. -/
def takeTag? (mark : Char) (cs : List Char) : Option (List Char × List Char) :=
  match Text.dropStart? [mark] cs with
  | none => some ([], cs)
  | some rest =>
    let tag := rest.takeWhile isTagChar
    if tag.isEmpty then none else some (tag, rest.dropWhile isTagChar)

/-- The text of a partial version cut into its places and its pre-release; a build is dropped. -/
structure Spelling where
  major : Place
  minor : Place
  patch : Place
  pre : List Char
  deriving DecidableEq, Repr

def Spelling.ofChars? (cs : List Char) : Option Spelling := do
  let (major, cs) ← takePlace? ((Text.dropStart? ['v'] cs).getD cs)
  let (minor, cs) := takeFurther cs
  let (patch, cs) := takeFurther cs
  let (pre, cs) ← takeTag? '-' cs
  let (_, cs) ← takeTag? '+' cs
  if cs.isEmpty then some ⟨major, minor, patch, pre⟩ else none

def readNumber (cs : List Char) : Except ReadError Nat :=
  (Numeral.read cs).mapError .numeral

/-- The text of the release that three numbers and a pre-release spell. -/
def releaseChars (a b c : Nat) (pre : List Char) : List Char :=
  Numeral.digits a ++ '.' :: Numeral.digits b ++ '.' :: Numeral.digits c ++
    if pre.isEmpty then [] else '-' :: pre

/-- Reads a partial version that is cut into its places; nothing after a wildcard counts. -/
def ofSpelling (s : Spelling) : Except ReadError Partial :=
  match s.major, s.minor, s.patch with
  | .wildcard, _, _ => .ok any
  | .digits a, .wildcard, _ => (readNumber a).map major
  | .digits a, .digits b, .wildcard => do
    let a ← readNumber a
    let b ← readNumber b
    return minor a b
  | .digits a, .digits b, .digits c => do
    let a ← readNumber a
    let b ← readNumber b
    let c ← readNumber c
    let release ← readRelease (releaseChars a b c s.pre)
    return full a b c release

def read (cs : List Char) : Except ReadError Partial :=
  match Spelling.ofChars? cs with
  | none => .error (.operand cs)
  | some s => ofSpelling s

end Partial

end Range

end RuntimeRanges
