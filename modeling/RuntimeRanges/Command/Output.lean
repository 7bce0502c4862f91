import RuntimeRanges.Document.Json
import RuntimeRanges.Manifest
import RuntimeRanges.Validation

/-!
What commands leave behind: an exit code and printed texts, or a failure that they do not handle. The standard output
takes characters only; on the standard error a code point that stands for none is written as its escape.
-/

namespace RuntimeRanges.Command

/-- The exit code of a command and the texts that it prints. -/
structure Output where
  exitCode : Nat
  stdout : String := ""
  stderr : String := ""
  deriving DecidableEq, Repr

/-- What the value of an option was needed for that was given none. -/
inductive NoValue
  | readFile
  | namePath
  | readText
  deriving DecidableEq, Repr

def NoValue.message : NoValue → String
  | readFile => "'list' object has no attribute 'read_text'"
  | namePath => "expected str, bytes or os.PathLike object, not list"
  | readText => "'list' object has no attribute 'strip'"

/-- Code points of a text that cannot be written: the first of them, and where the run of them begins and ends. -/
structure Unencodable where
  code : Nat
  first : Nat
  last : Nat
  deriving DecidableEq, Repr

def Unencodable.message (u : Unencodable) : String :=
  let place :=
    if u.first = u.last then
      "character '\\u" ++ String.ofList (Text.Quoted.hexDigits 4 u.code) ++ "' in position " ++ toString u.first
    else "characters in position " ++ toString u.first ++ "-" ++ toString u.last
  "'utf-8' codec can't encode " ++ place ++ ": surrogates not allowed"

/-- A failure that no report covers. -/
inductive Escape
  | noValue (v : NoValue)
  | file (f : FileFault) (path : FilePath)
  | tooDeep (e : Json.TooDeep)
  /-- A message quotes a value that is nested too deep. -/
  | quotedTooDeep
  | library (f : Library.Failure)
  | shape (f : Manifest.ShapeFault)
  | entries (f : Failure)
  | unencodable (u : Unencodable)
  deriving Repr

def Escape.message : Escape → String
  | noValue v => v.message
  | file f path => f.message path
  | tooDeep e => e.message
  | quotedTooDeep => "maximum recursion depth exceeded while getting the repr of an object"
  | library f => f.message
  | shape f => f.message
  | entries f => f.message
  | unencodable u => u.message

/-- The first run of code points that stand for no character. -/
def unencodable? (codes : List Nat) : Option Unencodable :=
  let isCharacter (n : Nat) : Bool := decide (Nat.isValidChar n)
  match codes.dropWhile isCharacter with
  | [] => none
  | code :: rest =>
    let first := (codes.takeWhile isCharacter).length
    some ⟨code, first, first + (rest.takeWhile (!isCharacter ·)).length⟩

def onStdout (t : Scalar) : Except Escape String :=
  match unencodable? t.codes with
  | none => .ok (String.ofList (t.codes.map Char.ofNat))
  | some u => .error (.unencodable u)

/-- A code point as it is written on the standard error. -/
def stderrChars (n : Nat) : List Char :=
  if Nat.isValidChar n then [Char.ofNat n] else '\\' :: 'u' :: Text.Quoted.hexDigits 4 n

def onStderr (t : Scalar) : String :=
  String.ofList (t.codes.flatMap stderrChars)

example : onStderr (.unpaired [0x61, 0xD83D]) = "a\\ud83d" ∧
    unencodable? [0x61, 0xD83D, 0xD83D] = some ⟨0xD83D, 1, 2⟩ := by
  decide +kernel

end RuntimeRanges.Command
