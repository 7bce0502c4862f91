import RuntimeRanges.Range.Partial

/-!
Comparators: an operator with a partial version, and the interval that it admits.
-/

namespace RuntimeRanges.Range

/-- The operator of a comparator; without one the operand itself is meant. -/
inductive Operator
  | equal
  | less
  | lessEqual
  | greater
  | greaterEqual
  | caret
  | tilde
  deriving DecidableEq, Repr

def takeOperator : List Char → Operator × List Char
  | '>' :: '=' :: cs => (.greaterEqual, cs)
  | '<' :: '=' :: cs => (.lessEqual, cs)
  | '>' :: cs => (.greater, cs)
  | '<' :: cs => (.less, cs)
  | '=' :: cs => (.equal, cs)
  | '^' :: cs => (.caret, cs)
  | '~' :: '>' :: cs => (.tilde, cs)
  | '~' :: cs => (.tilde, cs)
  | cs => (.equal, cs)

namespace Partial

/-- The releases that change nothing up to the first number that is not zero. -/
def caret : Partial → Except ReadError Interval
  | any => .ok .any
  | p@(major a) => (nextMajor a).map (.between p.floor)
  | p@(minor a b) => (if 0 < a then nextMajor a else nextMinor a b).map (.between p.floor)
  | p@(full a b c _) =>
    (if 0 < a then nextMajor a else if 0 < b then nextMinor a b else nextPatch a b c).map
      (.between p.floor)

/-- The releases that change neither the major number nor a minor number that is given. -/
def tilde : Partial → Except ReadError Interval
  | any => .ok .any
  | p@(major a) => (nextMajor a).map (.between p.floor)
  | p@(minor a b) => (nextMinor a b).map (.between p.floor)
  | p@(full a b _ _) => (nextMinor a b).map (.between p.floor)

/-- The releases after everything that the partial version stands for. -/
def greater : Partial → Except ReadError Interval
  | full _ _ _ release => .ok (.beyond release)
  | p => p.ceiling?.map fun
    | none => .nothing
    | some ceiling => .since ceiling

/-- The releases up to the end of what the partial version stands for. -/
def lessEqual : Partial → Except ReadError Interval
  | full _ _ _ release => .ok (.upTo release)
  | p => p.ceiling?.map fun ceiling => ⟨.origin, ceiling, true, false⟩

/-- The releases before everything that the partial version stands for. -/
def less : Partial → Interval
  | any => .nothing
  | p => .before p.floor

/-- The releases that the partial version stands for. -/
def equal : Partial → Except ReadError Interval
  | full _ _ _ release => .ok (.only release)
  | p => p.ceiling?.map fun ceiling => ⟨p.floor, ceiling, true, false⟩

/-- The interval that an operator and a partial version admit. -/
def interval (p : Partial) : Operator → Except ReadError Interval
  | .equal => p.equal
  | .less => .ok p.less
  | .lessEqual => p.lessEqual
  | .greater => p.greater
  | .greaterEqual => .ok (.since p.floor)
  | .caret => p.caret
  | .tilde => p.tilde

end Partial

def readComparator (cs : List Char) : Except ReadError Interval := do
  let (operator, operand) := takeOperator cs
  let p ← Partial.read operand
  p.interval operator

end RuntimeRanges.Range
