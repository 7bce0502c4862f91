import RuntimeRanges.Version

/-!
Reduction of a pair of limits to a single version where one of them is redundant.
-/

namespace RuntimeRanges

/-- Compares components as ends of a limit: a wildcard is the last of all where versions up to it are
admitted, and the first of all where versions from it on are. -/
def Side.compareComponents (side : Side) : Component → Component → Ordering
  | .number m, .number n => compare m n
  | .wildcard, .wildcard => .eq
  | .wildcard, .number _ => match side with | .atMost => .gt | .atLeast => .lt
  | .number _, .wildcard => match side with | .atMost => .lt | .atLeast => .gt

/-- Compares parts as ends of a limit; the first difference decides. -/
def Side.compareParts (side : Side) (p q : Parts) : Ordering :=
  (side.compareComponents p.major q.major).then <|
    (side.compareComponents p.minor q.minor).then <| side.compareComponents p.patch q.patch

namespace Version

/-- The single version that a pair of limits reduces to. Of two limits on the same side the larger one
stays. Limits on opposite sides of the same parts leave the versions of that major number. -/
def reduction? : Version → Option Version
  | pair l u =>
    if l = u then some (limit u)
    else if l.side ≠ u.side then
      if l.parts = u.parts then some (exact ⟨l.parts.major, .wildcard, .wildcard⟩) else none
    else
      match l.side.compareParts l.parts u.parts with
      | .lt => some (limit u)
      | .gt => some (limit l)
      | .eq => none
  | _ => none

/-- The version with a redundant limit removed. -/
def simplify (v : Version) : Version :=
  v.reduction?.getD v

end Version

end RuntimeRanges
