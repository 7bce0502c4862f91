import RuntimeRanges.Component

/-!
Versions as definition ranges name them: exactly the given parts, a limit on one side of them, or a pair of
limits. An exact version has no second bound and a second bound is always a limit, by construction; `Draft`
is the form in which these rules are checked.
-/

namespace RuntimeRanges

/-- The side of its parts that a limit admits. -/
inductive Side
  | atLeast
  | atMost
  deriving DecidableEq, Repr

def Side.chars : Side → List Char
  | atLeast => ['>', '=']
  | atMost => ['<', '=']

/-- A limit on the versions admitted, such as `>=v0.38.x`. -/
structure Limit where
  side : Side
  parts : Parts
  deriving DecidableEq, Repr

def Limit.chars (l : Limit) : List Char :=
  l.side.chars ++ 'v' :: l.parts.chars

/-- A version, used to state which runtime versions a definition covers. -/
inductive Version
  | exact (parts : Parts)
  | limit (limit : Limit)
  | pair (first second : Limit)
  deriving DecidableEq, Repr

namespace Version

/-- The version with the given side, or an exact one, and without a second bound. -/
def single (side? : Option Side) (parts : Parts) : Version :=
  match side? with
  | none => exact parts
  | some side => limit ⟨side, parts⟩

/-- The side of the first limit; an exact version has none. -/
def side? : Version → Option Side
  | exact _ => none
  | limit l => some l.side
  | pair l _ => some l.side

/-- The parts, without those of a second bound. -/
def parts : Version → Parts
  | exact p => p
  | limit l => l.parts
  | pair l _ => l.parts

def second? : Version → Option Limit
  | pair _ u => some u
  | _ => none

/-- The version without its second bound. -/
def first (v : Version) : Version :=
  single v.side? v.parts

def isBounded (v : Version) : Bool :=
  v.second?.isSome

def sameParts (v w : Version) : Bool :=
  v.parts = w.parts

def withParts (v : Version) (p : Parts) : Version :=
  match v with
  | exact _ => exact p
  | limit l => limit ⟨l.side, p⟩
  | pair l u => pair ⟨l.side, p⟩ u

@[simp]
theorem parts_withParts (v : Version) (p : Parts) : (v.withParts p).parts = p := by
  cases v <;> rfl

@[simp]
theorem second?_first (v : Version) : v.first.second? = none := by
  cases v <;> rfl

/-- The text of the operator: `>=`, `<=` or nothing. -/
def operatorChars (v : Version) : List Char :=
  (v.side?.map Side.chars).getD []

def chars : Version → List Char
  | exact p => 'v' :: p.chars
  | limit l => l.chars
  | pair l u => l.chars ++ '_' :: u.chars

def text (v : Version) : String :=
  String.ofList v.chars

/-- Why unchecked parts do not make a version. -/
inductive Refusal
  | component (r : Component.Refusal)
  /-- The operator is a list or an object. -/
  | compoundOperator (value : Document)
  | unknownOperator (value : Document)
  | notComponent (slot : Slot)
  | unknownSlot (name : String)
  | exactWithBound
  | nestedBound
  | exactBound
  deriving Repr

def Refusal.message : Refusal → String
  | component r => r.message
  | compoundOperator value =>
    "unhashable type: '" ++ (match value with | .object _ => "dict" | _ => "list") ++ "'"
  | unknownOperator value => "Invalid version range: " ++ value.literal
  | notComponent slot => slot.name ++ " must be a Concrete or Wildcard component"
  | unknownSlot name => "Unknown version component: " ++ name
  | exactWithBound => "An exact version cannot carry an upper bound"
  | nestedBound => "An upper bound cannot carry its own upper bound"
  | exactBound => "An upper bound must use a '>=' or '<=' range"

/-- Reads an operator: `>=`, `<=`, or the empty text for an exact version. -/
def readOperator : Document → Except Refusal (Option Side)
  | .text "" => .ok none
  | .text ">=" => .ok (some .atLeast)
  | .text "<=" => .ok (some .atMost)
  | .list items => .error (.compoundOperator (.list items))
  | .object fields => .error (.compoundOperator (.object fields))
  | value => .error (.unknownOperator value)

/-- Puts a second bound to a version without one: only a limit takes one, and only a limit is one. -/
def assemble (side? : Option Side) (parts : Parts) : Option Version → Except Refusal Version
  | none => .ok (single side? parts)
  | some bound =>
    match side?, bound with
    | none, _ => .error .exactWithBound
    | some _, pair _ _ => .error .nestedBound
    | some _, exact _ => .error .exactBound
    | some side, limit u => .ok (pair ⟨side, parts⟩ u)

/-- The unchecked parts of a version; a place may hold something that is no component. -/
structure Draft where
  operator : Document
  major : Option Component
  minor : Option Component
  patch : Option Component
  bound : Option Version := none

/-- Demands a component at a place. -/
def require (slot : Slot) : Option Component → Except Refusal Component
  | some c => .ok c
  | none => .error (.notComponent slot)

def Draft.check (d : Draft) : Except Refusal Version := do
  let side? ← readOperator d.operator
  let major ← require .major d.major
  let minor ← require .minor d.minor
  let patch ← require .patch d.patch
  assemble side? ⟨major, minor, patch⟩ d.bound

/-- The version made of values: components are read first, then the operator, then the bound is checked. -/
def ofDocuments (operator major minor patch : Document) (bound : Option Version) :
    Except Refusal Version := do
  let major ← (Component.ofDocument major).mapError .component
  let minor ← (Component.ofDocument minor).mapError .component
  let patch ← (Component.ofDocument patch).mapError .component
  Draft.check ⟨operator, some major, some minor, some patch, bound⟩

/-- The version with another component at the place with the given name. -/
def replacePart (v : Version) (name : String) (value : Document) : Except Refusal Version :=
  match Slot.ofName? name with
  | none => .error (.unknownSlot name)
  | some slot => do
    let c ← (Component.ofDocument value).mapError .component
    return v.withParts (v.parts.set slot c)

def replaceOperator (v : Version) (operator : Document) : Except Refusal Version := do
  let side? ← readOperator operator
  assemble side? v.parts (v.second?.map limit)

/-- The version with another second bound, or without one. -/
def replaceBound (v : Version) (bound : Option Version) : Except Refusal Version :=
  assemble v.side? v.parts bound

theorem assemble_eq_ok_iff {side? : Option Side} {parts : Parts} {bound : Option Version} {v : Version} :
    assemble side? parts bound = .ok v ↔
      (bound = none ∧ v = single side? parts) ∨
        ∃ side u, side? = some side ∧ bound = some (limit u) ∧ v = pair ⟨side, parts⟩ u := by
  cases bound with
  | none => simp [assemble, eq_comm]
  | some b => cases side? <;> cases b <;> simp [assemble, eq_comm]

end Version

end RuntimeRanges
