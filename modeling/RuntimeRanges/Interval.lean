import RuntimeRanges.Release

/-!
Intervals of releases. An interval has a lower end and may have an upper one, and each end belongs to it or
not; `meet` is the common part of two intervals.
-/

namespace RuntimeRanges

/-- An interval of releases; without an upper end it is unbounded. -/
structure Interval where
  lower : Release
  upper : Option Release
  lowerIn : Bool := true
  upperIn : Bool := false
  deriving DecidableEq, Repr

namespace Interval

/-- Whether the interval holds no release by its ends alone. -/
def isEmpty (i : Interval) : Bool :=
  match i.upper with
  | none => false
  | some upper =>
    match i.lower.compare upper with
    | .lt => false
    | .eq => !(i.lowerIn && i.upperIn)
    | .gt => true

def aboveLower (i : Interval) (r : Release) : Bool :=
  match r.compare i.lower with
  | .lt => false
  | .eq => i.lowerIn
  | .gt => true

def belowUpper (i : Interval) (r : Release) : Bool :=
  match i.upper with
  | none => true
  | some upper =>
    match r.compare upper with
    | .lt => true
    | .eq => i.upperIn
    | .gt => false

def contains (i : Interval) (r : Release) : Bool :=
  i.aboveLower r && i.belowUpper r

/-- The larger of two lower ends; of two equal ones the end is in where it is in both. -/
def meetLower (i j : Interval) : Release × Bool :=
  match i.lower.compare j.lower with
  | .gt => (i.lower, i.lowerIn)
  | .lt => (j.lower, j.lowerIn)
  | .eq => (i.lower, i.lowerIn && j.lowerIn)

/-- The smaller of two upper ends; of two equal ones the end is in where it is in both. -/
def meetUpper (i j : Interval) : Option Release × Bool :=
  match i.upper, j.upper with
  | u, none => (u, i.upperIn)
  | none, some _ => (j.upper, j.upperIn)
  | some u, some w =>
    match u.compare w with
    | .lt => (some u, i.upperIn)
    | .gt => (some w, j.upperIn)
    | .eq => (some u, i.upperIn && j.upperIn)

def meet (i j : Interval) : Interval :=
  let (lower, lowerIn) := i.meetLower j
  let (upper, upperIn) := i.meetUpper j
  ⟨lower, upper, lowerIn, upperIn⟩

/-- All releases from the origin on. -/
def any : Interval :=
  ⟨.origin, none, true, false⟩

def nothing : Interval :=
  ⟨.origin, some .origin, true, false⟩

/-- All releases from the given one on. -/
def since (r : Release) : Interval :=
  ⟨r, none, true, false⟩

/-- All releases after the given one. -/
def beyond (r : Release) : Interval :=
  ⟨r, none, false, false⟩

/-- The releases from one on and before another. -/
def between (lower upper : Release) : Interval :=
  ⟨lower, some upper, true, false⟩

/-- The releases before the given one, from the origin on. -/
def before (r : Release) : Interval :=
  between .origin r

/-- The releases up to the given one, from the origin on. -/
def upTo (r : Release) : Interval :=
  ⟨.origin, some r, true, true⟩

def only (r : Release) : Interval :=
  ⟨r, some r, true, true⟩

end Interval

end RuntimeRanges
