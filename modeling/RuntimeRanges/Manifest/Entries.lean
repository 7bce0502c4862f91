import RuntimeRanges.Manifest
import RuntimeRanges.Validation

/-!
The entries that the lines of a manifest make. A manifest that keeps to the schema of manifests makes one entry
for each line; in any other one a name or a version can be of any kind. Lists and objects cannot be told apart
when definitions are grouped, which shows as soon as an entry with one of them has to go to its group.
-/

namespace RuntimeRanges.Manifest

/-- What a line makes: an entry, why it cannot go to a group, and whether its identity can be written. -/
structure Reading where
  entry : Entry
  ungrouped : Option ShapeFault := none
  isWritable : Bool := true
  deriving Repr

/-- A value as a part of an identity, and why it cannot be a part of a group's identity. -/
def identityPart (refusal : Identity.Refusal) (d : Document) : Except ShapeFault (Scalar × Option ShapeFault) :=
  match d with
  | .scalar s => if s.isEmpty then .error (.identity refusal) else .ok (s, none)
  | .list [] | .object [] => .error (.identity refusal)
  | d => .ok (.text d.literal, some (.keyOf d))

/-- The range of a line, which has to be a text. -/
def Line.readRange (start : Option Scalar) (l : Line) : Except ShapeFault Scalar :=
  match l.range with
  | .text range => .ok range
  | .scalar (.unpaired codes) => .ok (.unpaired codes)
  | d => .error (if start.isSome then .startOf d else .readOf d)

def Line.read (start : Option Scalar) (l : Line) : Except ShapeFault Reading := do
  let (name, atName) ← identityPart .emptyName l.name
  let (version, atVersion) ← identityPart .emptyVersion l.version
  let range ← l.readRange start
  return ⟨⟨name, version, range⟩, atName.or atVersion, l.name.isWritable && l.version.isWritable⟩

/-- What the lines before the first one that makes nothing make, and what is wrong with that one. -/
def readings (start : Option Scalar) : List Line → List Reading × Option ShapeFault
  | [] => ([], none)
  | l :: ls =>
    match l.read start with
    | .error f => ([], some f)
    | .ok r => (r :: (readings start ls).1, (readings start ls).2)

def Reading.isReadable (start : Option Scalar) (r : Reading) : Bool :=
  (Collection.readRange start r.entry.range).toOption.isSome

/-- Whether the entry is left out because of a fault of its range. -/
def Reading.isRejected (start : Option Scalar) (r : Reading) : Bool :=
  match Collection.readRange start r.entry.range with
  | .error (.fault _) => true
  | _ => false

/-- The readings up to the first one that cannot go to its group though its range is rejected, and why; its
identity is written before. A range that can be read is not put to its group before all lines are read. -/
def untilUngrouped (start : Option Scalar) : List Reading → List Reading × Option ShapeFault
  | [] => ([], none)
  | r :: rs =>
    if r.ungrouped.isSome && r.isRejected start then
      if r.isWritable then ([r], r.ungrouped) else ([], some (.numeral .writing))
    else (r :: (untilUngrouped start rs).1, (untilUngrouped start rs).2)

theorem untilUngrouped_of_grouped (start : Option Scalar) {rs : List Reading}
    (h : ∀ r ∈ rs, r.ungrouped = none) : untilUngrouped start rs = (rs, none) := by
  induction rs with
  | nil => rfl
  | cons r rs ih => simp [untilUngrouped, h r (by simp), ih fun r hr => h r (by simp [hr])]

/-- The number of candidates before the first one that cannot go to its group, and why. -/
def groupedBefore (start : Option Scalar) : List Reading → Option (Nat × ShapeFault)
  | [] => none
  | r :: rs =>
    match r.ungrouped with
    | some f => some (0, f)
    | none => (groupedBefore start rs).map fun (n, f) => (if r.isReadable start then n + 1 else n, f)

theorem groupedBefore_eq_none_iff (start : Option Scalar) {rs : List Reading} :
    groupedBefore start rs = none ↔ ∀ r ∈ rs, r.ungrouped = none := by
  induction rs with
  | nil => simp [groupedBefore]
  | cons r rs ih => cases h : r.ungrouped <;> simp [groupedBefore, h, ih]

end RuntimeRanges.Manifest
