import RuntimeRanges.Document

/-!
The components of a version: a number, or the wildcard `x` that stands for any single digit.
-/

namespace RuntimeRanges

/-- A component of a version. -/
inductive Component
  | number (n : Nat)
  | wildcard
  deriving DecidableEq, Repr

namespace Component

def chars : Component → List Char
  | number n => Numeral.digits n
  | wildcard => ['x']

def text (c : Component) : String :=
  String.ofList c.chars

def isWildcard : Component → Bool
  | number _ => false
  | wildcard => true

/-- Why a value is not a component. -/
inductive Refusal
  | notInteger (value : Document)
  | negative (n : Int)
  | invalid (value : Document)
  deriving Repr

def Refusal.message : Refusal → String
  | notInteger value => "Version component must be an integer: " ++ value.literal
  | negative n => "Version component must be non-negative: " ++ Numeral.text n
  | invalid value => "Invalid version component: " ++ value.literal

/-- The component with the given number, which has to be an integer and not negative. -/
def concrete : Document → Except Refusal Component
  | .int n => if n < 0 then .error (.negative n) else .ok (number n.toNat)
  | value => .error (.notInteger value)

/-- Reads a component from a value: `x` is the wildcard and an integer a number. A truth value is no
integer, though it is refused as one. -/
def ofDocument : Document → Except Refusal Component
  | .text s => if s = "x" then .ok wildcard else .error (.invalid (.text s))
  | .int n => concrete (.int n)
  | .bool b => concrete (.bool b)
  | value => .error (.invalid value)

theorem concrete_eq_ok_iff {value : Document} {c : Component} :
    concrete value = .ok c ↔ ∃ n : Nat, value = .int n ∧ c = number n := by
  constructor
  · intro h
    cases value with
    | scalar s =>
      cases s with
      | int n =>
        simp only [concrete] at h
        split at h
        · cases h
        · cases h
          exact ⟨n.toNat, by rw [Int.toNat_of_nonneg (by omega)], rfl⟩
      | _ => cases h
    | _ => cases h
  · rintro ⟨n, rfl, rfl⟩
    simp only [concrete]
    rw [if_neg (by omega)]
    rfl

theorem ofDocument_eq_ok_iff {value : Document} {c : Component} :
    ofDocument value = .ok c ↔
      (value = .text "x" ∧ c = wildcard) ∨ ∃ n : Nat, value = .int n ∧ c = number n := by
  cases value with
  | scalar s =>
    cases s with
    | text s =>
      simp only [ofDocument]
      split
      · next h => simp [h, eq_comm]
      · next h => simp [h]
    | int n => simp [ofDocument, concrete_eq_ok_iff]
    | bool b => simp [ofDocument, concrete]
    | _ => simp [ofDocument]
  | _ => simp [ofDocument]

end Component

/-- The three places of a version. -/
inductive Slot
  | major
  | minor
  | patch
  deriving DecidableEq, Repr

def Slot.name : Slot → String
  | major => "major"
  | minor => "minor"
  | patch => "patch"

def Slot.ofName? (name : String) : Option Slot :=
  [major, minor, patch].find? (·.name = name)

/-- The three components of a version. -/
structure Parts where
  major : Component
  minor : Component
  patch : Component
  deriving DecidableEq, Repr

namespace Parts

def get (p : Parts) : Slot → Component
  | .major => p.major
  | .minor => p.minor
  | .patch => p.patch

def set (p : Parts) (slot : Slot) (c : Component) : Parts :=
  match slot with
  | .major => { p with major := c }
  | .minor => { p with minor := c }
  | .patch => { p with patch := c }

def chars (p : Parts) : List Char :=
  p.major.chars ++ '.' :: p.minor.chars ++ '.' :: p.patch.chars

def ofNumbers (major minor patch : Nat) : Parts :=
  ⟨.number major, .number minor, .number patch⟩

end Parts

end RuntimeRanges
