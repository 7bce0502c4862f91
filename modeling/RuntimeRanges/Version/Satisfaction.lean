import RuntimeRanges.Range
import RuntimeRanges.Version

/-!
Satisfaction of a range by a version with wildcards. Each wildcard stands for one digit, and the version
satisfies the range if one way to fill in digits does. `expansions` lists these ways in the order in which
they are tried.
-/

namespace RuntimeRanges

def wildcardDigits : List Nat :=
  List.range 10

def Component.choices : Component → List Component
  | .wildcard => wildcardDigits.map .number
  | c => [c]

namespace Parts

def allWildcards (p : Parts) : Bool :=
  p.major.isWildcard && p.minor.isWildcard && p.patch.isWildcard

/-- The places in the order in which their wildcards are filled in. -/
def slots : List Slot :=
  [.major, .minor, .patch]

/-- Fills in digits for the wildcards at the given places, each in turn, until the test of the result
against the range succeeds; the first success ends the search. -/
def tryDigits {m : Type → Type} [Monad m] (leaf : String → String → m Bool) (range : String) :
    List Slot → Parts → m Bool
  | [], p => leaf (String.ofList p.chars) range
  | slot :: slots, p =>
    match p.get slot with
    | .number _ => tryDigits leaf range slots p
    | .wildcard =>
      wildcardDigits.anyM fun digit => tryDigits leaf range slots (p.set slot (.number digit))

/-- All ways to fill in digits for the wildcards, those of the later places varying faster. -/
def expansions (p : Parts) : List Parts :=
  p.major.choices.flatMap fun a =>
    p.minor.choices.flatMap fun b => p.patch.choices.map fun c => ⟨a, b, c⟩

end Parts

namespace Version

/-- Whether a version satisfies a range, by a given test of an expansion against the range. A version of
wildcards alone satisfies everything. The operator and the second bound play no part. -/
def satisfiesWith {m : Type → Type} [Monad m] (leaf : String → String → m Bool) (v : Version)
    (range : String) : m Bool :=
  if v.parts.allWildcards then pure true else Parts.tryDigits leaf range Parts.slots v.parts

def satisfies (v : Version) (range : String) : Except Range.ReadError Bool :=
  v.satisfiesWith Range.satisfies range

def comparatorChars (side? : Option Side) (p : Parts) : List Char :=
  (side?.map Side.chars).getD [] ++ p.chars

/-- The text of a version as a range. A pair of limits whose first one is `>=` demands both, and one whose
first one is `<=` either of them. -/
def rangeChars (v : Version) : List Char :=
  match v with
  | pair l u =>
    comparatorChars (some l.side) l.parts ++
      (match l.side with | .atLeast => [' '] | .atMost => [' ', '|', '|', ' ']) ++
        comparatorChars (some u.side) u.parts
  | _ => comparatorChars v.side? v.parts

def rangeText (v : Version) : String :=
  String.ofList v.rangeChars

end Version

end RuntimeRanges
