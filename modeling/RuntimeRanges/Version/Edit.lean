import RuntimeRanges.Version.Reader
import RuntimeRanges.Version.Reduction

/-!
Building versions from descriptions and editing them. A description is a text, a target, or the values of the
parts; an edit that is refused leaves the version as it was.
-/

namespace RuntimeRanges

namespace Version

/-- Why a version cannot be built or edited. -/
inductive Error
  | read (e : ReadError)
  | refused (r : Refusal)

def Error.wording : Error → Scalar
  | read e => e.wording
  | refused r => .text r.message

/-- What a version is to be built from. -/
inductive Description
  | text (s : String)
  | target (s : String)
  | values (operator major minor patch : Document) (bound : Option Description)

/-- Builds a version; a second bound is built before the version itself. -/
def Description.build : Description → Except Error Version
  | text s => (Version.read s).mapError .read
  | target s => (Version.readTarget s).mapError .read
  | values operator major minor patch none =>
    (ofDocuments operator major minor patch none).mapError .refused
  | values operator major minor patch (some bound) => do
    let b ← bound.build
    (ofDocuments operator major minor patch (some b)).mapError .refused

/-- A change to a version. -/
inductive Edit
  | set (d : Description)
  | replacePart (name : String) (value : Document)
  | dropBound
  | takeBound
  | replaceOperator (operator : Document)
  | replaceBound (bound : Option Description)
  | simplify
  | reread

def edit (v : Version) : Edit → Except Error Version
  | .set d => d.build
  | .replacePart name value => (v.replacePart name value).mapError .refused
  | .dropBound => .ok v.first
  | .takeBound => .ok ((v.second?.map limit).getD v)
  | .replaceOperator operator => (v.replaceOperator operator).mapError .refused
  | .replaceBound none => (v.replaceBound none).mapError .refused
  | .replaceBound (some d) => do
    let b ← d.build
    (v.replaceBound (some b)).mapError .refused
  | .simplify => .ok v.simplify
  | .reread => (Version.read v.text).mapError .read

/-- The version after a change, or as it was where the change is refused. -/
def attempt (v : Version) (e : Edit) : Version :=
  match v.edit e with
  | .ok w => w
  | .error _ => v

def attemptAll (v : Version) (edits : List Edit) : Version :=
  edits.foldl attempt v

end Version

end RuntimeRanges
