import RuntimeRanges.Candidate
import RuntimeRanges.Grouped
import RuntimeRanges.Log.Traced
import RuntimeRanges.Problem
import RuntimeRanges.Version.Reduction
import RuntimeRanges.Version.Satisfaction

/-!
Resolution of a target among candidates, and the overlaps between candidates of one identity. Both look at
the reduced versions of the candidates and leave a trace of what they found.
-/

namespace RuntimeRanges

open Log (Traced)

namespace Version

def reductionEvents (v : Version) : List Log.Event :=
  match v.reduction? with
  | none => []
  | some w =>
    [.debug "simplified_bounded_version" [("original", .text v.text), ("simplified", .text w.text)]]

def simplifyTraced {ε : Type} (v : Version) : Traced ε Version :=
  ⟨v.reductionEvents, .ok v.simplify⟩

@[simp]
theorem outcome_simplifyTraced {ε : Type} (v : Version) :
    (v.simplifyTraced : Traced ε Version).outcome = .ok v.simplify := rfl

end Version

namespace Candidate

/-- Whether a candidate covers the target with the given range text. -/
def matchesTraced (target : String) (c : Candidate) : Traced Range.ReadError Bool := do
  let pattern ← c.version.simplifyTraced
  let matched ← Traced.lift (pattern.satisfies target)
  let label ← Traced.lift (c.identity.write.mapError .numeral)
  Traced.emit <| .debug "candidate_checked"
    [ ("identity", .scalar label), ("pattern", .text pattern.text), ("range", .text target),
      ("matched", .bool matched) ]
  return matched

/-- The candidates that cover the target with the given range text, in order. -/
def selectTraced (target : String) : List Candidate → Traced Range.ReadError (List Candidate)
  | [] => return []
  | c :: cs => do
    let matched ← c.matchesTraced target
    let selected ← selectTraced target cs
    return if matched then c :: selected else selected

end Candidate

/-- The candidates that cover a target, in order; several may belong to one identity. -/
def resolveTraced (target : Version) (candidates : List Candidate) :
    Traced Range.ReadError (List Candidate) :=
  Candidate.selectTraced target.rangeText candidates

def resolve (target : Version) (candidates : List Candidate) : Except Range.ReadError (List Candidate) :=
  (resolveTraced target candidates).outcome

/-- All pairs of elements, the earlier one first. -/
def pairs {α : Type} : List α → List (α × α)
  | [] => []
  | a :: as => as.map (a, ·) ++ pairs as

namespace Overlap

/-- The candidates grouped by identity, each with the text of its reduced range. -/
def groupTraced (groups : Grouped Identity (Candidate × String)) :
    List Candidate → Traced Range.ReadError (Grouped Identity (Candidate × String))
  | [] => return groups
  | c :: cs => do
    let v ← c.version.simplifyTraced
    groupTraced (groups.add c.identity (c, v.rangeText)) cs

def foundTraced (identity : Identity) (first second : String) : Traced Range.ReadError Unit := do
  let label ← Traced.lift (identity.write.mapError .numeral)
  Traced.emit <| .debug "overlap_found"
    [("identity", .scalar label), ("first", .text first), ("second", .text second)]

def ofPairsTraced (identity : Identity) :
    List ((Candidate × String) × (Candidate × String)) → Traced Range.ReadError (List Overlap)
  | [] => return []
  | ((c, first), (d, second)) :: rest => do
    let overlapping ← Traced.lift (Range.intersects first second)
    if overlapping then foundTraced identity first second
    let overlaps ← ofPairsTraced identity rest
    return if overlapping then ⟨identity, c.version, d.version⟩ :: overlaps else overlaps

/-- The overlaps of each group; a group without any is left out. -/
def ofGroupsTraced :
    Grouped Identity (Candidate × String) → Traced Range.ReadError (Grouped Identity Overlap)
  | [] => return []
  | (identity, members) :: groups => do
    let overlaps ← ofPairsTraced identity (pairs members)
    let rest ← ofGroupsTraced groups
    return if overlaps.isEmpty then rest else (identity, overlaps) :: rest

/-- The overlaps between candidates of one identity. -/
def findTraced (candidates : List Candidate) : Traced Range.ReadError (Grouped Identity Overlap) := do
  let groups ← groupTraced [] candidates
  ofGroupsTraced groups

def find (candidates : List Candidate) : Except Range.ReadError (Grouped Identity Overlap) :=
  (findTraced candidates).outcome

end Overlap

end RuntimeRanges
