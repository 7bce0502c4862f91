import RuntimeRanges.Resolution

/-!
Validation of a list of entries: their range names are read, and the ranges of each definition are checked
for overlaps. Names that cannot be read are collected and do not end the validation.
-/

namespace RuntimeRanges

open Log (Traced)

/-- Why entries cannot be handled at all. -/
inductive Failure
  | identity (r : Identity.Refusal)
  | numeral (e : Numeral.LimitError)
  | range (e : Range.ReadError)
  deriving DecidableEq, Repr

def Failure.message : Failure → String
  | identity r => r.message
  | numeral e => e.message
  | range e => e.message

/-- Candidates, and the faults of the entries that are not. -/
structure Collection where
  candidates : List Candidate
  faults : Grouped Identity Version.Fault

namespace Collection

/-- Reads the range name of an entry, with the given beginning of directory names or without one. -/
def readRange (start : Option Scalar) (name : Scalar) : Except Version.ReadError Version :=
  match start with
  | none => Version.read name
  | some start => Version.readDirectoryName start name

def rejection (label range : Scalar) (f : Version.Fault) : Log.Event :=
  .debug "range_rejected"
    [("identity", .scalar label), ("range", .scalar range), ("error", .scalar f.wording)]

/-- Adds the entries to candidates and faults, both kept in the order of the entries. -/
def addTraced (start : Option Scalar) (candidates : List Candidate)
    (faults : Grouped Identity Version.Fault) : List Entry → Traced Failure Collection
  | [] => return ⟨candidates, faults⟩
  | e :: es => do
    let identity ← Traced.lift (e.identity.mapError .identity)
    match readRange start e.range with
    | .ok v => addTraced start (candidates ++ [⟨identity, v⟩]) faults es
    | .error (.fault f) => do
      let label ← Traced.lift (identity.write.mapError .numeral)
      Traced.emit (rejection label e.range f)
      addTraced start candidates (faults.add identity f) es
    | .error (.numeral err) => Traced.lift (.error (.numeral err))

def ofEntriesTraced (start : Option Scalar) (entries : List Entry) : Traced Failure Collection :=
  addTraced start [] [] entries

def ofEntries (start : Option Scalar) (entries : List Entry) : Except Failure Collection :=
  (ofEntriesTraced start entries).outcome

end Collection

/-- The outcome of a validation. -/
structure Validation where
  candidates : List Candidate
  problems : ProblemMap

namespace Validation

def isOk (v : Validation) : Bool :=
  v.problems.isEmpty

def problemCount (v : Validation) : Nat :=
  v.problems.size

def asProblems {α : Type} (f : α → Problem) (groups : Grouped Identity α) : ProblemMap :=
  groups.map fun (identity, elements) => (identity, elements.map f)

/-- Looks for overlaps among candidates, and puts the problems together. -/
def ofCollectionTraced (c : Collection) : Traced Failure Validation := do
  let overlaps ← (Overlap.findTraced c.candidates).mapError .range
  return ⟨c.candidates, Grouped.merge [asProblems .unreadable c.faults, asProblems .overlap overlaps]⟩

def ofEntriesTraced (start : Option Scalar) (entries : List Entry) : Traced Failure Validation := do
  let c ← Collection.ofEntriesTraced start entries
  ofCollectionTraced c

def ofEntries (start : Option Scalar) (entries : List Entry) : Except Failure Validation :=
  (ofEntriesTraced start entries).outcome

end Validation

end RuntimeRanges
