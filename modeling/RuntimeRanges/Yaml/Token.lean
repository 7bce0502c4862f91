import RuntimeRanges.Yaml.Scalar

/-!
Tokens of YAML. Scanning keeps track of the indentation: a deeper column opens a block collection, and a
lower one closes those that are open. The key of a mapping is only known by the colon after it, so the place
where a key may have begun is remembered, and its token is put there later. Anchors, aliases, tags, block scalars and
directives are not read; scanning ends at the sign that begins one.
-/

namespace RuntimeRanges.Yaml

/-- A token. -/
inductive Token
  | sequenceStart
  | mappingStart
  | blockEnd
  | entry
  | key
  | value
  | flowSequenceStart
  | flowSequenceEnd
  | flowMappingStart
  | flowMappingEnd
  | flowEntry
  | plain (text : List Char)
  | quoted (codes : List Nat)
  | documentStart
  | documentEnd
  /-- The escape of a code point that there is none of; nothing is scanned after it. -/
  | unreadable (code : Nat)
  /-- The sign of something that is not read; nothing is scanned after it. -/
  | unsupported (sign : Char)
  deriving DecidableEq, Repr

/-- Where a key may have begun. A required one has to turn out to be a key. -/
structure PossibleKey where
  level : Nat
  token : Nat
  required : Bool
  index : Nat
  line : Nat
  column : Nat

/-- The state of scanning. The tokens are held in reverse. -/
structure Scan where
  cursor : Cursor
  indent : Int := -1
  indents : List Int := []
  level : Nat := 0
  keyAllowed : Bool := true
  keys : List PossibleKey := []
  tokens : List Token := []
  last : Option Token := none

namespace Scan

def push (s : Scan) (t : Token) : Scan :=
  { s with tokens := t :: s.tokens }

/-- Puts a token in front of the one with the given number. -/
def insertAt (s : Scan) (number : Nat) (t : Token) : Scan :=
  let later := s.tokens.length - number
  { s with tokens := s.tokens.take later ++ t :: s.tokens.drop later }

def advance (s : Scan) (n : Nat) : Scan :=
  { s with cursor := s.cursor.advance n }

def allowKey (s : Scan) (allowed : Bool) : Scan :=
  { s with keyAllowed := allowed }

/-- Closes the block collections that are indented further than a column. -/
def unwind (s : Scan) (column : Int) : Scan :=
  if s.level ≠ 0 then s
  else
    let (closed, kept) := (s.indent :: s.indents).span (column < ·)
    match kept with
    | [] => s
    | indent :: indents =>
      { s with indent, indents, tokens := closed.map (fun _ => Token.blockEnd) ++ s.tokens }

/-- Opens a block collection at a column that is further in. -/
def indentTo (s : Scan) (column : Nat) : Scan × Bool :=
  if s.indent < column then ({ s with indent := column, indents := s.indent :: s.indents }, true)
  else (s, false)

/-- Whether a possible key is on another line or too far back. -/
def isStale (s : Scan) (k : PossibleKey) : Bool :=
  k.line ≠ s.cursor.line || 1024 < s.cursor.index - k.index

/-- Forgets the stale possible keys, of which none may be required. -/
def dropStaleKeys (s : Scan) : Option Scan :=
  if s.keys.any fun k => s.isStale k && k.required then none
  else some { s with keys := s.keys.filter fun k => !s.isStale k }

/-- The tokens that no key can be put in front of any more. -/
def settled (s : Scan) : List Token :=
  let pending := s.keys.filter fun k => !s.isStale k
  s.tokens.reverse.take (pending.foldl (fun n k => min n k.token) s.tokens.length)

/-- Forgets the possible key of this level, which may not be required. -/
def dropKey (s : Scan) : Option Scan :=
  if s.keys.any fun k => k.level = s.level && k.required then none
  else some { s with keys := s.keys.filter (·.level ≠ s.level) }

/-- Remembers that a key may begin here. -/
def saveKey (s : Scan) : Option Scan :=
  if !s.keyAllowed then some s
  else do
    let s ← s.dropKey
    let required := s.level == 0 && s.indent == s.cursor.column
    let k : PossibleKey :=
      ⟨s.level, s.tokens.length, required, s.cursor.index, s.cursor.line, s.cursor.column⟩
    return { s with keys := k :: s.keys }

/-- Opens a block collection here, with the given token, where a new one may begin. -/
def openBlock (s : Scan) (t : Token) : Option Scan :=
  if s.level ≠ 0 then some s
  else if !s.keyAllowed then none
  else
    let (s, opened) := s.indentTo s.cursor.column
    some (if opened then s.push t else s)

def mark (s : Scan) (t : Token) : Option Scan := do
  let s ← (s.unwind (-1)).dropKey
  return ((s.allowKey false).advance 3).push t

def flowStart (s : Scan) (t : Token) : Option Scan := do
  let s ← s.saveKey
  return ((({ s with level := s.level + 1 }).allowKey true).advance 1).push t

def flowEnd (s : Scan) (t : Token) : Option Scan := do
  let s ← s.dropKey
  return ((({ s with level := s.level - 1 }).allowKey false).advance 1).push t

def flowEntry (s : Scan) : Option Scan := do
  let s ← (s.allowKey true).dropKey
  return (s.advance 1).push .flowEntry

/-- The sign in front of an item of a block sequence. -/
def blockEntry (s : Scan) : Option Scan := do
  let s ← s.openBlock .sequenceStart
  let s ← (s.allowKey true).dropKey
  return (s.advance 1).push .entry

/-- The sign in front of a key. -/
def explicitKey (s : Scan) : Option Scan := do
  let s ← s.openBlock .mappingStart
  let s ← (s.allowKey (s.level == 0)).dropKey
  return (s.advance 1).push .key

/-- The sign in front of a value, which makes a key of what may have been one. -/
def keyValue (s : Scan) : Option Scan :=
  match s.keys.find? (·.level = s.level) with
  | some k =>
    let s := { s with keys := s.keys.filter (·.level ≠ s.level) }
    let s := s.insertAt k.token .key
    let (s, opened) := if s.level = 0 then s.indentTo k.column else (s, false)
    let s := if opened then s.insertAt k.token .mappingStart else s
    some (((s.allowKey false).advance 1).push .value)
  | none => do
    let s ← s.openBlock .mappingStart
    let s ← (s.allowKey (s.level == 0)).dropKey
    return (s.advance 1).push .value

def plain (s : Scan) : Option Scan := do
  let s ← s.saveKey
  let fuel := s.cursor.rest.length + 1
  let (text, cursor, broken) := plainParts (s.level != 0) (s.indent + 1) [] false s.cursor fuel
  return (({ s with cursor }).allowKey broken).push (.plain text)

def quoted (s : Scan) (double : Bool) : Option Scan := do
  let s ← s.saveKey
  let fuel := s.cursor.rest.length + 1
  let (codes, cursor) ← quotedRest double s.cursor.step fuel
  let s := { s with cursor, last := (codes.find? (codeLimit ≤ ·)).map .unreadable }
  return (s.allowKey false).push (.quoted codes)

/-- Characters that begin no plain scalar, or only in front of the rest of a word. -/
def indicators : List Char :=
  [ '-', '?', ':', ',', '[', ']', '\x7b', '\x7d', '#', '&', '*', '!', '|', '>', '\'', '"', '%', '@',
    '\x60' ]

def beginsPlain (s : Scan) (c : Char) : Bool :=
  (!endsWord (some c) && !indicators.contains c) ||
    (!endsWord s.cursor.peekSecond && (c == '-' || (s.level == 0 && (c == '?' || c == ':'))))

/-- Whether the character begins an anchor, an alias, a tag, a block scalar or a directive here. -/
def beginsUnsupported (s : Scan) (c : Char) : Bool :=
  c == '&' || c == '*' || c == '!' || (s.level == 0 && (c == '|' || c == '>')) || (s.cursor.column == 0 && c == '%')

def token (s : Scan) (c : Char) : Option Scan :=
  if s.beginsUnsupported c then some { s with last := some (.unsupported c) }
  else if s.cursor.column = 0 ∧ c = '-' ∧ s.cursor.atMark then s.mark .documentStart
  else if s.cursor.column = 0 ∧ c = '.' ∧ s.cursor.atMark then s.mark .documentEnd
  else if c = '[' then s.flowStart .flowSequenceStart
  else if c = '{' then s.flowStart .flowMappingStart
  else if c = ']' then s.flowEnd .flowSequenceEnd
  else if c = '}' then s.flowEnd .flowMappingEnd
  else if c = ',' then s.flowEntry
  else if c = '-' ∧ endsWord s.cursor.peekSecond then s.blockEntry
  else if c = '?' ∧ (s.level ≠ 0 ∨ endsWord s.cursor.peekSecond) then s.explicitKey
  else if c = ':' ∧ (s.level ≠ 0 ∨ endsWord s.cursor.peekSecond) then s.keyValue
  else if c = '\'' then s.quoted false
  else if c = '"' then s.quoted true
  else if s.beginsPlain c then s.plain
  else none

/-- The place of the next token, with the block collections closed that end before it. -/
def gap (s : Scan) : Option Scan := do
  let (cursor, passed) := s.cursor.skipGap false false (s.cursor.rest.length + 1)
  let s := { s with cursor, keyAllowed := s.keyAllowed || (passed && s.level == 0) }
  let s ← s.dropStaleKeys
  return s.unwind s.cursor.column

/-- The tokens of the whole text, of which a part has been scanned. -/
def run (s : Scan) : Nat → Option (List Token)
  | 0 => none
  | fuel + 1 => do
    let next ← s.gap
    match next.cursor.peek with
    | none => do
      let last ← (next.unwind (-1)).dropKey
      return last.tokens.reverse
    | some c => do
      let next ← next.token c
      match next.last with
      | some t => return s.settled ++ [t]
      | none => next.run fuel

end Scan

def isAdmitted (c : Char) : Bool :=
  let n := c.toNat
  n == 9 || n == 10 || n == 13 || (0x20 ≤ n && n ≤ 0x7E) || n == 0x85 || (0xA0 ≤ n && n ≤ 0xD7FF) ||
    (0xE000 ≤ n && n ≤ 0xFFFD) || 0x10000 ≤ n

def tokens? (cs : List Char) : Option (List Token) :=
  if cs.all isAdmitted then
    let start : Cursor := ⟨cs, 0, 0, 0⟩
    let start := if start.peek = some '\uFEFF' then start.step else start
    Scan.run { cursor := start } (2 * cs.length + 2)
  else none

end RuntimeRanges.Yaml
