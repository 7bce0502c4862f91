import RuntimeRanges.Proofs.Version.RoundTrip
import RuntimeRanges.Version.Edit

/-!
Versions as records of fields of which nothing is known: the operator is any text, a number is any integer or truth
value, and a bound may have a bound of its own. Each operation builds its record anew and checks the fields.
-/

namespace RuntimeRanges

namespace Version

/-- What stands at a place of a record. -/
inductive Cell
  | wildcard
  | integer (n : Int)
  | truth (b : Bool)
  deriving DecidableEq, Repr

structure Cells where
  major : Cell
  minor : Cell
  patch : Cell
  deriving DecidableEq, Repr

/-- The fields of a record besides its bound. -/
structure Fields where
  operator : String
  cells : Cells
  deriving DecidableEq, Repr

/-- The fields of a version, with nothing known of them. -/
inductive Record
  | single (fields : Fields)
  | bounded (fields : Fields) (bound : Record)
  deriving DecidableEq, Repr

/-- What cells are compared by; nothing is after the infinite rank. -/
inductive Rank
  | finite (n : Int)
  | infinite
  deriving DecidableEq, Repr

def Rank.isBefore : Rank → Rank → Bool
  | finite m, finite n => m < n
  | finite _, infinite => true
  | infinite, _ => false

namespace Cell

/-- Demands a number that is an integer and not negative. -/
def check : Cell → Except Component.Refusal Cell
  | wildcard => .ok wildcard
  | integer n => if n < 0 then .error (.negative n) else .ok (integer n)
  | truth b => .error (.notInteger (.bool b))

/-- The cell that a value is put into. A truth value is taken for an integer here, and refused by the check. -/
def ofDocument : Document → Except Component.Refusal Cell
  | .text s => if s = "x" then .ok wildcard else .error (.invalid (.text s))
  | .int n => check (integer n)
  | .bool b => check (truth b)
  | value => .error (.invalid value)

def write : Cell → Except Numeral.LimitError (List Char)
  | wildcard => .ok ['x']
  | integer n => (Numeral.write n.natAbs).map ((if n < 0 then ['-'] else []) ++ ·)
  | truth b => .ok (if b then "True" else "False").toList

def rank (wildcardRank : Rank) : Cell → Rank
  | wildcard => wildcardRank
  | integer n => .finite n
  | truth b => .finite (if b then 1 else 0)

def WellFormed : Cell → Prop
  | wildcard => True
  | integer n => 0 ≤ n
  | truth _ => False

end Cell

namespace Cells

def set (cs : Cells) (slot : Slot) (c : Cell) : Cells :=
  match slot with
  | .major => { cs with major := c }
  | .minor => { cs with minor := c }
  | .patch => { cs with patch := c }

def write (cs : Cells) : Except Numeral.LimitError (List Char) := do
  let major ← cs.major.write
  let minor ← cs.minor.write
  let patch ← cs.patch.write
  return major ++ '.' :: minor ++ '.' :: patch

def compare (wildcardRank : Rank) (cs ds : Cells) : Ordering :=
  go [(cs.major, ds.major), (cs.minor, ds.minor), (cs.patch, ds.patch)]
where
  go : List (Cell × Cell) → Ordering
    | [] => .eq
    | (c, d) :: rest =>
      if c.rank wildcardRank ≠ d.rank wildcardRank then
        if (c.rank wildcardRank).isBefore (d.rank wildcardRank) then .lt else .gt
      else go rest

end Cells

/-- A version's fields keep to the rules for them. -/
structure Fields.WellFormed (f : Fields) : Prop where
  operator : f.operator ∈ ["", ">=", "<="]
  major : f.cells.major.WellFormed
  minor : f.cells.minor.WellFormed
  patch : f.cells.patch.WellFormed

namespace Record

def fields : Record → Fields
  | single f => f
  | bounded f _ => f

def bound? : Record → Option Record
  | single _ => none
  | bounded _ b => some b

/-- A record that keeps to all rules: only a limit has a bound, and the bound is a limit without one. -/
structure WellFormed (r : Record) : Prop where
  fields : r.fields.WellFormed
  bound : ∀ b ∈ r.bound?,
    r.fields.operator ≠ "" ∧ b.fields.WellFormed ∧ b.fields.operator ≠ "" ∧ b.bound? = none

def checkOperator : Document → Except Refusal String
  | .text s => if ["", ">=", "<="].contains s then .ok s else .error (.unknownOperator (.text s))
  | .list items => .error (.compoundOperator (.list items))
  | .object fields => .error (.compoundOperator (.object fields))
  | value => .error (.unknownOperator value)

def make (operator : Document) (cells : Cells) (bound : Option Record) : Except Refusal Record := do
  let operator ← checkOperator operator
  match bound with
  | none => return single ⟨operator, cells⟩
  | some b =>
    if operator = "" then .error .exactWithBound
    else if b.bound?.isSome then .error .nestedBound
    else if b.fields.operator = "" then .error .exactBound
    else return bounded ⟨operator, cells⟩ b

def write : Record → Except Numeral.LimitError (List Char)
  | single f => do
    let cells ← f.cells.write
    return f.operator.toList ++ 'v' :: cells
  | bounded f b => do
    let cells ← f.cells.write
    let bound ← b.write
    return f.operator.toList ++ 'v' :: cells ++ '_' :: bound

def dropBound : Record → Except Refusal Record
  | single f => .ok (single f)
  | bounded f _ => make (.text f.operator) f.cells none

def replacePart (r : Record) (name : String) (value : Document) : Except Refusal Record :=
  match Slot.ofName? name with
  | none => .error (.unknownSlot name)
  | some slot => do
    let c ← (Cell.ofDocument value).mapError .component
    make (.text r.fields.operator) (r.fields.cells.set slot c) r.bound?

/-- The record that a record without a bound and the bound reduce to, if one of them is redundant. -/
def reduce? (lower upper : Record) : Except Refusal (Option Record) :=
  if lower = upper then .ok (some upper)
  else if lower.fields.operator ≠ upper.fields.operator then
    if lower.fields.cells ≠ upper.fields.cells then .ok none
    else (make (.text "") ⟨lower.fields.cells.major, .wildcard, .wildcard⟩ none).map some
  else
    match lower.fields.cells.compare (if lower.fields.operator = "<=" then .infinite else .finite (-1))
      upper.fields.cells with
    | .eq => .ok none
    | .lt => .ok (some upper)
    | .gt => .ok (some lower)

/-- The record with a redundant bound removed. A reduction is announced with both records in writing. -/
def simplify (r : Record) : Except Error Record :=
  match r.bound? with
  | none => .ok r
  | some upper => do
    let lower ← r.dropBound.mapError .refused
    match ← (reduce? lower upper).mapError .refused with
    | none => return r
    | some result => do
      let _ ← r.write.mapError fun e => .read (.numeral e)
      let _ ← result.write.mapError fun e => .read (.numeral e)
      return result

end Record

def cellOf : Component → Cell
  | .number n => .integer n
  | .wildcard => .wildcard

def cellsOf (p : Parts) : Cells :=
  ⟨cellOf p.major, cellOf p.minor, cellOf p.patch⟩

def operatorOf : Option Side → String
  | none => ""
  | some .atLeast => ">="
  | some .atMost => "<="

def record (v : Version) : Record :=
  match v.second? with
  | none => .single ⟨operatorOf v.side?, cellsOf v.parts⟩
  | some u =>
    .bounded ⟨operatorOf v.side?, cellsOf v.parts⟩ (.single ⟨operatorOf (some u.side), cellsOf u.parts⟩)

/-- Builds a record; a bound is built before the record itself. -/
def Description.buildRecord : Description → Except Error Record
  | text s => ((Version.read s).map record).mapError .read
  | target s => ((Version.readTarget s).map record).mapError .read
  | values operator major minor patch none => ofCells operator major minor patch none
  | values operator major minor patch (some bound) => do
    let b ← bound.buildRecord
    ofCells operator major minor patch (some b)
where
  ofCells (operator major minor patch : Document) (bound : Option Record) : Except Error Record :=
    Except.mapError .refused do
      let major ← (Cell.ofDocument major).mapError .component
      let minor ← (Cell.ofDocument minor).mapError .component
      let patch ← (Cell.ofDocument patch).mapError .component
      Record.make operator ⟨major, minor, patch⟩ bound

namespace Record

def edit (r : Record) : Edit → Except Error Record
  | .set d => d.buildRecord
  | .replacePart name value => (r.replacePart name value).mapError .refused
  | .dropBound => r.dropBound.mapError .refused
  | .takeBound => .ok (r.bound?.getD r)
  | .replaceOperator operator => (make operator r.fields.cells r.bound?).mapError .refused
  | .replaceBound none => (make (.text r.fields.operator) r.fields.cells none).mapError .refused
  | .replaceBound (some d) => do
    let b ← d.buildRecord
    (make (.text r.fields.operator) r.fields.cells (some b)).mapError .refused
  | .simplify => r.simplify
  | .reread => do
    let text ← r.write.mapError fun e => .read (.numeral e)
    ((Version.read (String.ofList text)).map record).mapError .read

/-- The record after a change, or as it was where the change fails. -/
def attempt (r : Record) (e : Edit) : Record :=
  match r.edit e with
  | .ok s => s
  | .error _ => r

def attemptAll (r : Record) (edits : List Edit) : Record :=
  edits.foldl attempt r

end Record

end Version

end RuntimeRanges
