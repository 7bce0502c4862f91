import RuntimeRanges.Candidate
import RuntimeRanges.Proofs.Version.Reduction

/-!
Short numbers, those of at most 4299 digits: they can be written, and so can their successors. A version or a
candidate is short when all its numbers are.
-/

namespace RuntimeRanges

namespace Numeral

/-- A number of at most 4299 digits. -/
def Short (n : Nat) : Prop :=
  n < Nat.pow 10 (maxDigits - 1)

instance (n : Nat) : Decidable (Short n) :=
  inferInstanceAs (Decidable (n < _))

theorem succ_lt_pow_succ {n k : Nat} (h : n < Nat.pow 10 k) : n + 1 < Nat.pow 10 (k + 1) := by
  have hs : Nat.pow 10 (k + 1) = Nat.pow 10 k * 10 := Nat.pow_succ ..
  omega

theorem Short.succ_lt {n : Nat} (h : Short n) : n + 1 < Nat.pow 10 maxDigits := by
  have hm : maxDigits - 1 + 1 = maxDigits := rfl
  have hs := succ_lt_pow_succ h
  rwa [hm] at hs

theorem Short.lt {n : Nat} (h : Short n) : n < Nat.pow 10 maxDigits :=
  Nat.lt_of_succ_lt h.succ_lt

theorem Short.write_eq {n : Nat} (h : Short n) : write n = .ok (digits n) := by
  rw [write, if_pos h.lt]

theorem Short.write_succ_eq {n : Nat} (h : Short n) : write (n + 1) = .ok (digits (n + 1)) := by
  rw [write, if_pos h.succ_lt]

theorem pow_ten_pos (k : Nat) : 0 < Nat.pow 10 k :=
  Nat.pow_pos (by decide)

theorem lt_pow_succ_of_lt_ten {n : Nat} (h : n < 10) (k : Nat) : n < Nat.pow 10 (k + 1) := by
  have hs : Nat.pow 10 (k + 1) = Nat.pow 10 k * 10 := Nat.pow_succ ..
  have hp := pow_ten_pos k
  omega

theorem short_of_lt_ten {n : Nat} (h : n < 10) : Short n := by
  have hm : maxDigits - 2 + 1 = maxDigits - 1 := rfl
  have hs := lt_pow_succ_of_lt_ten h (maxDigits - 2)
  rwa [hm] at hs

theorem short_zero : Short 0 :=
  short_of_lt_ten (by decide)

end Numeral

def Component.Short : Component → Prop
  | number n => Numeral.Short n
  | wildcard => True

instance (comp : Component) : Decidable comp.Short :=
  match comp with
  | .number n => inferInstanceAs (Decidable (Numeral.Short n))
  | .wildcard => inferInstanceAs (Decidable True)

def Parts.Short (p : Parts) : Prop :=
  p.major.Short ∧ p.minor.Short ∧ p.patch.Short

instance (p : Parts) : Decidable p.Short :=
  inferInstanceAs (Decidable (_ ∧ _))

namespace Version

def Short : Version → Prop
  | exact p => p.Short
  | limit l => l.parts.Short
  | pair l u => l.parts.Short ∧ u.parts.Short

instance (v : Version) : Decidable v.Short :=
  match v with
  | exact p => inferInstanceAs (Decidable p.Short)
  | limit l => inferInstanceAs (Decidable l.parts.Short)
  | pair l u => inferInstanceAs (Decidable (l.parts.Short ∧ u.parts.Short))

theorem Short.simplify {v : Version} (h : v.Short) : v.simplify.Short := by
  cases v with
  | exact p => exact h
  | limit l => exact h
  | pair l u =>
    obtain ⟨hl, hu⟩ := h
    rw [Version.simplify]
    cases hr : reduction? (pair l u) with
    | none => exact ⟨hl, hu⟩
    | some w =>
      rw [Option.getD_some]
      obtain ⟨-, rfl⟩ | ⟨-, -, rfl⟩ | ⟨-, -, rfl⟩ | ⟨-, -, rfl⟩ := reduction?_pair_cases hr
      · exact hu
      · exact ⟨hl.1, trivial, trivial⟩
      · exact hu
      · exact hl

end Version

def Scalar.Short : Scalar → Prop
  | int n => Numeral.Short n.natAbs
  | _ => True

instance (s : Scalar) : Decidable s.Short :=
  match s with
  | .int n => inferInstanceAs (Decidable (Numeral.Short n.natAbs))
  | .null | .bool _ | .float _ | .text _ | .unpaired _ | .date _ | .moment _ => inferInstanceAs (Decidable True)

theorem Scalar.Short.isWritable {s : Scalar} (h : s.Short) : s.isWritable = true := by
  cases s with
  | int n =>
    have hw : Numeral.write n.natAbs = .ok _ := Numeral.Short.write_eq h
    rw [Scalar.isWritable, hw]
    rfl
  | _ => rfl

theorem Identity.write_of_short {k : Identity} (hn : k.name.Short) (hv : k.version.Short) : k.write = .ok k.label := by
  rw [write, hn.isWritable, hv.isWritable]
  rfl

/-- All numbers of a candidate are short. Texts are always so. -/
structure Candidate.Short (c : Candidate) : Prop where
  name : c.identity.name.Short
  packageVersion : c.identity.version.Short
  version : c.version.Short

instance (c : Candidate) : Decidable c.Short :=
  decidable_of_iff (c.identity.name.Short ∧ c.identity.version.Short ∧ c.version.Short)
    ⟨fun ⟨hn, hp, hv⟩ => ⟨hn, hp, hv⟩, fun ⟨hn, hp, hv⟩ => ⟨hn, hp, hv⟩⟩

theorem Candidate.Short.write_identity {c : Candidate} (h : c.Short) :
    c.identity.write = .ok c.identity.label :=
  Identity.write_of_short h.name h.packageVersion

def Candidate.ofLodash (v : Version) : Candidate :=
  ⟨⟨.text "lodash", .text "v4.x.x", by decide, by decide⟩, v⟩

end RuntimeRanges
