import RuntimeRanges.Candidate
import RuntimeRanges.Grouped

/-!
Problems of definitions: range names that cannot be read, and ranges of one definition that overlap.
-/

namespace RuntimeRanges

/-- Two ranges of one definition that have a runtime version in common. -/
structure Overlap where
  identity : Identity
  first : Version
  second : Version
  deriving DecidableEq

def Overlap.message (o : Overlap) : String :=
  "Overlapping runtime version ranges: '" ++ o.first.text ++ "' and '" ++ o.second.text ++
    "' both match at least one version"

/-- A problem of a definition. -/
inductive Problem
  | unreadable (f : Version.Fault)
  | overlap (o : Overlap)
  deriving DecidableEq

def Problem.wording : Problem → Scalar
  | unreadable f => f.wording
  | overlap o => .text o.message

abbrev ProblemMap := Grouped Identity Problem

end RuntimeRanges
