import RuntimeRanges.Document.Json
import RuntimeRanges.Yaml.Cursor

/-!
Scalars of YAML: where plain and quoted ones end, and their texts, in which lines are folded into one. The text
of a quoted scalar is held as code points, since escapes can stand for code points that are no characters.
-/

namespace RuntimeRanges.Yaml

/-- The number of characters of a plain scalar before the next blank. A colon ends it in front of the end of
a word, and inside brackets the signs of collections end it too. -/
def plainRun (inFlow : Bool) : List Char → Nat
  | [] => 0
  | c :: rest =>
    if endsWord (some c) then 0
    else if c = ':' && (endsWord rest.head? || (inFlow && [',', '[', ']', '\x7b', '\x7d'].contains (rest.head?.getD ' ')))
    then 0
    else if inFlow && [',', '?', '[', ']', '\x7b', '\x7d'].contains c then 0
    else plainRun inFlow rest + 1

/-- Line ends in a scalar: a single one becomes a blank, and of several the first is left out. -/
def fold (first : Char) (more : List Char) : List Char :=
  (if first ≠ '\n' then [first] else if more.isEmpty then [' '] else []) ++ more

def lineEnd (c : Char) : Char :=
  if c = '\u2028' ∨ c = '\u2029' then c else '\n'

/-- Blanks and line ends inside a plain scalar, from a line end on; the line ends found, or nothing at a mark
between documents. -/
def plainBreaks (c : Cursor) (found : List Char) : Nat → Option (List Char) × Cursor
  | 0 => (some found.reverse, c)
  | fuel + 1 =>
    match c.peek with
    | none => (some found.reverse, c)
    | some ch =>
      if ch = ' ' then plainBreaks c.step found fuel
      else if isBreak ch then
        if c.step.atMark then (none, c.step) else plainBreaks c.step (lineEnd ch :: found) fuel
      else (some found.reverse, c)

/-- The gap after a part of a plain scalar: what stands for it if the scalar goes on, where it ends, and
whether it holds a line end. -/
def plainGap (c : Cursor) (fuel : Nat) : List Char × Cursor × Bool :=
  let blanks := c.rest.takeWhile (· == ' ')
  let c := c.advance blanks.length
  match c.peek with
  | some ch =>
    if isBreak ch then
      let c := c.step
      if c.atMark then ([], c, true)
      else
        match plainBreaks c [] fuel with
        | (none, c) => ([], c, true)
        | (some more, c) => (fold (lineEnd ch) more, c, true)
    else (blanks, c, false)
  | none => (blanks, c, false)

/-- The parts of a plain scalar that is indented by at least `indent`: its text, where it ends, and whether
it ends with a line end. `gap` stands for what is between the parts. -/
def plainParts (inFlow : Bool) (indent : Int) (gap : List Char) (broken : Bool) (c : Cursor) :
    Nat → List Char × Cursor × Bool
  | 0 => ([], c, broken)
  | fuel + 1 =>
    let length := plainRun inFlow c.rest
    if c.peek = some '#' ∨ length = 0 then ([], c, broken)
    else
      let part := gap ++ c.rest.take length
      let (gap, next, broken) := plainGap (c.advance length) fuel
      if gap.isEmpty ∨ next.peek = some '#' ∨ (!inFlow ∧ (next.column : Int) < indent) then
        (part, next, broken)
      else
        let (more, last, broken) := plainParts inFlow indent gap broken next fuel
        (part ++ more, last, broken)

def escaped? : Char → Option Char
  | '0' => some '\x00'
  | 'a' => some '\x07'
  | 'b' => some '\x08'
  | 't' => some '\t'
  | '\t' => some '\t'
  | 'n' => some '\n'
  | 'v' => some '\x0b'
  | 'f' => some '\x0c'
  | 'r' => some '\r'
  | 'e' => some '\x1b'
  | ' ' => some ' '
  | '"' => some '"'
  | '\\' => some '\\'
  | '/' => some '/'
  | 'N' => some '\x85'
  | '_' => some '\xa0'
  | 'L' => some '\u2028'
  | 'P' => some '\u2029'
  | _ => none

/-- The number of hexadecimal digits after the letter of an escape. -/
def codeLength? : Char → Option Nat
  | 'x' => some 2
  | 'u' => some 4
  | 'U' => some 8
  | _ => none

def hexNumber? (digits : List Char) : Option Nat :=
  digits.foldlM (fun n c => (Json.hexValue? c).map (n * 16 + ·)) 0

def quotedBreaks (c : Cursor) (found : List Char) : Nat → Option (List Char × Cursor)
  | 0 => none
  | fuel + 1 =>
    if c.atMark && c.column == 0 then none
    else
      let c := c.advance (c.rest.takeWhile fun ch => ch == ' ' || ch == '\t').length
      match c.peek with
      | none => some (found.reverse, c)
      | some ch =>
        if isBreak ch then quotedBreaks c.step (lineEnd ch :: found) fuel else some (found.reverse, c)

def codeLimit : Nat := 0x110000

/-- A quoted scalar from behind its opening quote: its code points, and where it ends. At the escape of a code
point that there is none of it ends with the number of the escape. -/
def quotedRest (double : Bool) (c : Cursor) : Nat → Option (List Nat × Cursor)
  | 0 => none
  | fuel + 1 => do
    let goOn (part : List Char) (c : Cursor) : Option (List Nat × Cursor) := do
      let (more, last) ← quotedRest double c fuel
      return (part.map Char.toNat ++ more, last)
    match c.rest with
    | [] => none
    | ch :: rest =>
      if ch = '\'' ∧ !double then
        if rest.head? = some '\'' then goOn ['\''] (c.advance 2) else some ([], c.step)
      else if ch = '"' ∧ double then some ([], c.step)
      else if ch = '\\' ∧ double then
        match rest with
        | [] => none
        | e :: digits =>
          match escaped? e, codeLength? e with
          | some r, _ => goOn [r] (c.advance 2)
          | none, some length =>
            let digits := digits.take length
            if digits.length < length then none
            else
              let n ← hexNumber? digits
              if codeLimit ≤ n then some ([n], c)
              else
                let (more, last) ← quotedRest double (c.advance (length + 2)) fuel
                return (n :: more, last)
          | none, none =>
            if isBreak e then do
              let (more, c) ← quotedBreaks (c.advance 2) [] fuel
              goOn more c
            else none
      else if endsWord (some ch) then
        let blanks := c.rest.takeWhile fun b => b == ' ' || b == '\t'
        let c := c.advance blanks.length
        match c.peek with
        | none => none
        | some ch =>
          if isBreak ch then do
            let (more, c) ← quotedBreaks c.step [] fuel
            goOn (fold (lineEnd ch) more) c
          else goOn blanks c
      else goOn [ch] c.step

end RuntimeRanges.Yaml
