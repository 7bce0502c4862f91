import RuntimeRanges.Range.Comparator

/-!
Ranges: alternatives between `||`, each a list of comparators that all have to hold, or two partial versions
with a hyphen between them. A range is read into the intervals that it admits.
-/

namespace RuntimeRanges.Range

def endsOperator (c : Char) : Bool :=
  c == '>' || c == '<' || c == '=' || c == '^' || c == '~'

/-- The text without the blanks that follow an operator; `inGap` says that such a gap is being left out. -/
def closeGaps (inGap : Bool) : List Char → List Char
  | [] => []
  | c :: cs =>
    if inGap && Text.isBlank c then closeGaps true cs else c :: closeGaps (endsOperator c) cs

def meetAll (i : Interval) : List (List Char) → Except ReadError Interval
  | [] => .ok i
  | token :: tokens => do
    let j ← readComparator token
    meetAll (i.meet j) tokens

/-- Reads a range from one partial version up to another. -/
def readHyphen (low high : List Char) : Except ReadError Interval := do
  let low ← Partial.read low
  let high ← Partial.read high
  let upper ← high.lessEqual
  return (Interval.since low.floor).meet upper

/-- Reads one alternative; an empty one admits everything. -/
def readAlternative (cs : List Char) : Except ReadError Interval :=
  match Text.words cs with
  | [low, ['-'], high] => readHyphen low high
  | _ => meetAll .any (Text.words (closeGaps false (Text.trim cs)))

def readAlternatives : List (List Char) → Except ReadError (List Interval)
  | [] => .ok []
  | cs :: rest => do
    let i ← readAlternative cs
    let is ← readAlternatives rest
    return i :: is

/-- Reads a range into its intervals, without the empty ones. -/
def readChars (cs : List Char) : Except ReadError (List Interval) :=
  (readAlternatives (Text.splitBars cs)).map (·.filter fun i => !i.isEmpty)

def read (text : String) : Except ReadError (List Interval) :=
  readChars text.toList

/-- Whether a release satisfies a range; the release is read first. -/
def satisfies (release range : String) : Except ReadError Bool := do
  let r ← readRelease release.toList
  let intervals ← read range
  return intervals.any (·.contains r)

/-- Whether some release satisfies both ranges. The second one is only read where the first one admits
anything. -/
def intersects (left right : String) : Except ReadError Bool := do
  match ← read left with
  | [] => return false
  | is => do
    let js ← read right
    return is.any fun i => js.any fun j => !(i.meet j).isEmpty

end RuntimeRanges.Range
