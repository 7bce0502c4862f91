/-!
A place in a YAML text: the characters that are left, with the line and column of the first of them.
-/

namespace RuntimeRanges.Yaml

def isBreak (c : Char) : Bool :=
  c == '\n' || c == '\r' || c == '\x85' || c == '\u2028' || c == '\u2029'

/-- Whether a word ends in front of the character, or of the end of the text. -/
def endsWord : Option Char → Bool
  | none => true
  | some c => c == ' ' || c == '\t' || isBreak c

/-- The characters that are left, and where the first of them stands. -/
structure Cursor where
  rest : List Char
  index : Nat := 0
  line : Nat := 0
  column : Nat := 0

namespace Cursor

def peek (c : Cursor) : Option Char :=
  c.rest.head?

def peekSecond (c : Cursor) : Option Char :=
  c.rest.tail.head?

def step (c : Cursor) : Cursor :=
  match c.rest with
  | [] => c
  | ch :: rest =>
    if isBreak ch then ⟨rest, c.index + 1, c.line + 1, 0⟩
    else if ch = '\uFEFF' then ⟨rest, c.index + 1, c.line, c.column⟩
    else ⟨rest, c.index + 1, c.line, c.column + 1⟩

def advance (c : Cursor) : Nat → Cursor
  | 0 => c
  | n + 1 => c.step.advance n

/-- Whether one of the two marks between documents stands here, as a word of its own. -/
def atMark (c : Cursor) : Bool :=
  match c.rest with
  | '-' :: '-' :: '-' :: rest => endsWord rest.head?
  | '.' :: '.' :: '.' :: rest => endsWord rest.head?
  | _ => false

/-- The place of the next token, past blanks, line ends and comments, and whether a line end was passed. The
fuel is at least the number of characters left. -/
def skipGap (c : Cursor) (inComment passed : Bool) : Nat → Cursor × Bool
  | 0 => (c, passed)
  | fuel + 1 =>
    match c.rest with
    | [] => (c, passed)
    | ch :: _ =>
      if isBreak ch then c.step.skipGap false true fuel
      else if inComment then c.step.skipGap true passed fuel
      else if ch = ' ' then c.step.skipGap false passed fuel
      else if ch = '#' then c.step.skipGap true passed fuel
      else (c, passed)

end Cursor

end RuntimeRanges.Yaml
