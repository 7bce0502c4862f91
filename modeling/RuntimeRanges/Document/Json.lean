import RuntimeRanges.Document
import RuntimeRanges.Text.Cut

/-!
Reading JSON. A reader takes the characters that are left and gives a value with the characters after it;
a fault names how many characters are left where it was found. Besides the standard's values the numbers
`NaN`, `Infinity` and `-Infinity` are read, and a repeated key keeps its first place and its last value. Lists and
objects can be nested only so deep as there is room for.
-/

namespace RuntimeRanges.Json

/-- What is wrong with a text that is not JSON. -/
inductive Complaint
  | value
  | propertyName
  | colon
  | comma
  | extraData
  | unterminated
  | controlCharacter
  | escape
  | unicodeEscape
  | byteOrderMark
  deriving DecidableEq, Repr

def Complaint.message : Complaint → String
  | value => "Expecting value"
  | propertyName => "Expecting property name enclosed in double quotes"
  | colon => "Expecting ':' delimiter"
  | comma => "Expecting ',' delimiter"
  | extraData => "Extra data"
  | unterminated => "Unterminated string starting at"
  | controlCharacter => "Invalid control character at"
  | escape => "Invalid \\escape"
  | unicodeEscape => "Invalid \\uXXXX escape"
  | byteOrderMark => "Unexpected UTF-8 BOM (decode using utf-8-sig)"

/-- A list or an object that is nested too deep to be read. -/
inductive TooDeep
  | list
  | object
  deriving DecidableEq, Repr

def TooDeep.message : TooDeep → String
  | list => "maximum recursion depth exceeded while decoding a JSON array from a unicode string"
  | object => "maximum recursion depth exceeded while decoding a JSON object from a unicode string"

/-- Why reading stopped, and how many characters were left there. -/
inductive Stop
  | complaint (c : Complaint) (left : Nat)
  | numeral (e : Numeral.LimitError)
  | tooDeep (e : TooDeep)
  deriving DecidableEq, Repr

/-- A place in a text; lines and columns count from one. -/
structure Place where
  line : Nat
  column : Nat
  index : Nat
  deriving DecidableEq, Repr

/-- Why a text cannot be read. -/
inductive ReadError
  | malformed (c : Complaint) (place : Place)
  | numeral (e : Numeral.LimitError)
  | tooDeep (e : TooDeep)
  deriving DecidableEq, Repr

def ReadError.message : ReadError → String
  | malformed c place =>
    c.message ++ ": line " ++ toString place.line ++ " column " ++ toString place.column ++ " (char " ++
      toString place.index ++ ")"
  | numeral e => e.message
  | tooDeep e => e.message

def Place.after (before : List Char) : Place where
  line := before.count '\n' + 1
  column := (before.reverse.takeWhile (· ≠ '\n')).length + 1
  index := before.length

def isSpace (c : Char) : Bool :=
  c == ' ' || c == '\t' || c == '\n' || c == '\r'

def skipSpace (cs : List Char) : List Char :=
  cs.dropWhile isSpace

def hexValue? (c : Char) : Option Nat :=
  if c.isDigit then some (c.toNat - '0'.toNat)
  else if 'a' ≤ c ∧ c ≤ 'f' then some (c.toNat - 'a'.toNat + 10)
  else if 'A' ≤ c ∧ c ≤ 'F' then some (c.toNat - 'A'.toNat + 10)
  else none

def hexQuad? (a b c d : Char) : Option Nat := do
  let a ← hexValue? a
  let b ← hexValue? b
  let c ← hexValue? c
  let d ← hexValue? d
  return ((a * 16 + b) * 16 + c) * 16 + d

def escaped? : Char → Option Char
  | '"' => some '"'
  | '\\' => some '\\'
  | '/' => some '/'
  | 'b' => some '\x08'
  | 'f' => some '\x0c'
  | 'n' => some '\n'
  | 'r' => some '\r'
  | 't' => some '\t'
  | _ => none

/-- The code points of the rest of a string, up to its closing quote. `opening` is the number of characters
that were left at the opening quote. At least one more character has to follow the digits of a `\u` escape; a
surrogate without its partner is a code point of its own. -/
def stringRest (opening : Nat) : List Char → Except Stop (List Nat × List Char)
  | [] => .error (.complaint .unterminated opening)
  | '"' :: cs => .ok ([], cs)
  | '\\' :: 'u' :: a :: b :: c :: d :: '\\' :: 'u' :: e :: f :: g :: h :: next :: cs =>
    let left := cs.length + 12
    match hexQuad? a b c d with
    | none => .error (.complaint .unicodeEscape left)
    | some high =>
      if Text.isHighSurrogate high then
        match hexQuad? e f g h with
        | none => .error (.complaint .unicodeEscape (left - 6))
        | some low =>
          if Text.isLowSurrogate low then do
            let (s, rest) ← stringRest opening (next :: cs)
            return (Text.pairCode high low :: s, rest)
          else do
            let (s, rest) ← stringRest opening ('\\' :: 'u' :: e :: f :: g :: h :: next :: cs)
            return (high :: s, rest)
      else do
        let (s, rest) ← stringRest opening ('\\' :: 'u' :: e :: f :: g :: h :: next :: cs)
        return (high :: s, rest)
  | '\\' :: 'u' :: a :: b :: c :: d :: next :: cs =>
    match hexQuad? a b c d with
    | none => .error (.complaint .unicodeEscape (cs.length + 6))
    | some n => do
      let (s, rest) ← stringRest opening (next :: cs)
      return (n :: s, rest)
  | '\\' :: 'u' :: cs => .error (.complaint .unicodeEscape (cs.length + 1))
  | '\\' :: e :: cs =>
    match escaped? e with
    | none => .error (.complaint .escape (cs.length + 2))
    | some c => do
      let (s, rest) ← stringRest opening cs
      return (c.toNat :: s, rest)
  | ['\\'] => .error (.complaint .unterminated opening)
  | c :: cs =>
    if c.toNat < 0x20 then .error (.complaint .controlCharacter (cs.length + 1))
    else do
      let (s, rest) ← stringRest opening cs
      return (c.toNat :: s, rest)

/-- A run of digits at the front, and what follows. -/
def digitRun (cs : List Char) : List Char × List Char :=
  (cs.takeWhile Char.isDigit, cs.dropWhile Char.isDigit)

/-- A point with digits at the front: the digits, and what follows. -/
def fraction? : List Char → Option (List Char × List Char)
  | '.' :: c :: cs => if c.isDigit then some (digitRun (c :: cs)) else none
  | _ => none

/-- An exponent at the front, and what follows. -/
def exponent? : List Char → Option (Int × List Char)
  | [] => none
  | e :: cs =>
    if e = 'e' ∨ e = 'E' then
      let (negative, cs) :=
        match cs with
        | '-' :: cs => (true, cs)
        | '+' :: cs => (false, cs)
        | cs => (false, cs)
      let (digits, rest) := digitRun cs
      if digits.isEmpty then none
      else
        let n : Int := Numeral.value digits
        some (if negative then -n else n, rest)
    else none

/-- A number from its integer digits on. One with a point or an exponent is a floating-point number. -/
def numberRest (negative : Bool) (digits cs : List Char) : Except Stop (Document × List Char) :=
  let point := fraction? cs
  let (decimals, cs) := point.getD ([], cs)
  let power := exponent? cs
  let (exponent, cs) := power.getD (0, cs)
  if point.isNone && power.isNone then
    match Numeral.read digits with
    | .error e => .error (.numeral e)
    | .ok n => .ok (.int (if negative then -n else n), cs)
  else
    .ok (.float (.nearest negative ⟨Numeral.value (digits ++ decimals), exponent - decimals.length⟩), cs)

def number? (cs : List Char) : Option (Except Stop (Document × List Char)) :=
  let (negative, digits) :=
    match cs with
    | '-' :: cs => (true, cs)
    | cs => (false, cs)
  match digits with
  | [] => none
  | c :: rest =>
    if c = '0' then some (numberRest negative [c] rest)
    else if c.isDigit then
      let (run, rest) := digitRun digits
      some (numberRest negative run rest)
    else none

def named : List (List Char × Document) :=
  [ (['n', 'u', 'l', 'l'], .null),
    (['t', 'r', 'u', 'e'], .bool true),
    (['f', 'a', 'l', 's', 'e'], .bool false),
    (['N', 'a', 'N'], .float .undefined),
    (['I', 'n', 'f', 'i', 'n', 'i', 't', 'y'], .float (.infinite false)),
    (['-', 'I', 'n', 'f', 'i', 'n', 'i', 't', 'y'], .float (.infinite true)) ]

def named? (cs : List Char) : Option (Document × List Char) :=
  named.findSome? fun (spelling, d) => (Text.dropStart? spelling cs).map (d, ·)

/-- A value that holds no other value. -/
def scalar (cs : List Char) : Except Stop (Document × List Char) :=
  match cs with
  | '"' :: rest => do
    let (s, rest) ← stringRest cs.length rest
    return (.scalar (.ofCodes s), rest)
  | _ =>
    match named? cs with
    | some found => .ok found
    | none => (number? cs).getD (.error (.complaint .value cs.length))

mutual

/-- A value at the front of the text, in which lists and objects can be nested as deep as there is room. The fuel
bounds the depth and the number of items. -/
def value : Nat → Nat → List Char → Except Stop (Document × List Char)
  | 0, _, cs => .error (.complaint .value cs.length)
  | _ + 1, 0, '[' :: _ => .error (.tooDeep .list)
  | _ + 1, 0, '{' :: _ => .error (.tooDeep .object)
  | fuel + 1, room + 1, '[' :: cs =>
    match skipSpace cs with
    | ']' :: rest => .ok (.list [], rest)
    | cs => do
      let (items, rest) ← items fuel room cs
      return (.list items, rest)
  | fuel + 1, room + 1, '{' :: cs =>
    match skipSpace cs with
    | '}' :: rest => .ok (.object [], rest)
    | cs => do
      let (fields, rest) ← fields fuel room cs
      return (.object (Document.setFields [] fields), rest)
  | _ + 1, _, cs => scalar cs

def items : Nat → Nat → List Char → Except Stop (List Document × List Char)
  | 0, _, cs => .error (.complaint .value cs.length)
  | fuel + 1, room, cs => do
    let (d, rest) ← value fuel room cs
    match skipSpace rest with
    | ']' :: rest => return ([d], rest)
    | ',' :: rest => do
      let (ds, rest) ← items fuel room (skipSpace rest)
      return (d :: ds, rest)
    | rest => .error (.complaint .comma rest.length)

def fields : Nat → Nat → List Char → Except Stop (List (Scalar × Document) × List Char)
  | 0, _, cs => .error (.complaint .propertyName cs.length)
  | fuel + 1, room, '"' :: cs => do
    let (key, rest) ← stringRest (cs.length + 1) cs
    match skipSpace rest with
    | ':' :: rest => do
      let (d, rest) ← value fuel room (skipSpace rest)
      match skipSpace rest with
      | '}' :: rest => return ([(Scalar.ofCodes key, d)], rest)
      | ',' :: rest => do
        let (ds, rest) ← fields fuel room (skipSpace rest)
        return ((Scalar.ofCodes key, d) :: ds, rest)
      | rest => .error (.complaint .comma rest.length)
    | rest => .error (.complaint .colon rest.length)
  | _ + 1, _, cs => .error (.complaint .propertyName cs.length)

end

/-- A value that is the whole text. -/
def document (room : Nat) (cs : List Char) : Except Stop Document :=
  match cs with
  | '\uFEFF' :: _ => .error (.complaint .byteOrderMark cs.length)
  | _ => do
    let (d, rest) ← value (2 * cs.length + 2) room (skipSpace cs)
    match skipSpace rest with
    | [] => return d
    | rest => .error (.complaint .extraData rest.length)

/-- Reads a JSON text with room for lists and objects in one another. -/
def read (room : Nat) (cs : List Char) : Except ReadError Document :=
  match document room cs with
  | .ok d => .ok d
  | .error (.complaint c left) => .error (.malformed c (.after (cs.take (cs.length - left))))
  | .error (.numeral e) => .error (.numeral e)
  | .error (.tooDeep e) => .error (.tooDeep e)

example : read 1 ['[', '[', 'x'] = .error (.tooDeep .list) ∧ read 1 ['[', '1', ']'] = .ok (.list [.int 1]) :=
  ⟨rfl, rfl⟩

end RuntimeRanges.Json
