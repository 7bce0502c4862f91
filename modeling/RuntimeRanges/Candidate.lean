import RuntimeRanges.Version.Reader

/-!
Candidates: definitions of a package together with the versions that they cover.
-/

namespace RuntimeRanges

/-- Who a definition belongs to: the name and the version of a package, mostly texts and neither of them
empty. -/
@[ext]
structure Identity where
  name : Scalar
  version : Scalar
  name_nonempty : name.isEmpty = false
  version_nonempty : version.isEmpty = false
  deriving DecidableEq

namespace Identity

/-- Why a name and a version do not make an identity. -/
inductive Refusal
  | emptyName
  | emptyVersion
  deriving DecidableEq, Repr

def Refusal.message : Refusal → String
  | emptyName => "Package name must be non-empty"
  | emptyVersion => "Package version must be non-empty"

def make (name version : Scalar) : Except Refusal Identity :=
  if hn : name.isEmpty = false then
    if hv : version.isEmpty = false then .ok ⟨name, version, hn, hv⟩ else .error .emptyVersion
  else .error .emptyName

/-- Whether two identities are the same: numbers and points in time may be written differently. -/
def same (i j : Identity) : Bool :=
  i.name.same j.name && i.version.same j.version

instance : BEq Identity := ⟨same⟩

theorem beq_eq (i j : Identity) : (i == j) = (i.name.same j.name && i.version.same j.version) := rfl

instance : EquivBEq Identity where
  rfl := by simp [beq_eq, Scalar.same_refl]
  symm {i j} h := by rwa [beq_eq, Scalar.same_comm j.name, Scalar.same_comm j.version]
  trans {i j k} hij hjk := by
    rw [beq_eq, Bool.and_eq_true] at *
    exact ⟨Scalar.same_trans hij.1 hjk.1, Scalar.same_trans hij.2 hjk.2⟩

/-- The label of an identity; identities with different parts may have the same label. -/
def label (i : Identity) : Scalar :=
  .joined [i.name, "@", i.version]

/-- Writes the label of an identity, which may hold a number that is too large for it. -/
def write (i : Identity) : Except Numeral.LimitError Scalar :=
  if i.name.isWritable && i.version.isWritable then .ok i.label else .error .writing

end Identity

/-- A definition that covers the given version. -/
structure Candidate where
  identity : Identity
  version : Version
  deriving DecidableEq

def Candidate.toDocument (c : Candidate) : Document :=
  .object
    [ ("name", .scalar c.identity.name), ("version", .scalar c.identity.version),
      ("range", .text c.version.text) ]

/-- A line of a manifest: the identity of a definition and a text that names its range. -/
structure Entry where
  name : Scalar
  version : Scalar
  range : Scalar
  deriving DecidableEq, Repr

def Entry.identity (e : Entry) : Except Identity.Refusal Identity :=
  Identity.make e.name e.version

end RuntimeRanges
