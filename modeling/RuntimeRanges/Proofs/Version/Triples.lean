import Mathlib.Data.Set.Basic
import RuntimeRanges.Proofs.Version.Satisfaction

/-!
The triples of numbers that satisfy the range of a version: those that the version admits, as far as their numbers
can be written.
-/

namespace RuntimeRanges

open Numeral (Writable)

variable {a b c : Nat}

/-- All three numbers of a triple can be written. -/
def WritableTriple (t : Nat × Nat × Nat) : Prop :=
  Writable t.1 ∧ Writable t.2.1 ∧ Writable t.2.2

namespace Version

variable {v : Version}

/-- The triples that satisfy the range of a version. -/
def triples (v : Version) : Set (Nat × Nat × Nat) :=
  {t | Range.satisfies (tripleText t.1 t.2.1 t.2.2) v.rangeText = .ok true}

/-- Whether a triple satisfies the range of a version only depends on what the version admits, once the triple itself
is read. -/
theorem satisfies_rangeText_eq_map (hv : v.Short) (a b c : Nat) :
    Range.satisfies (tripleText a b c) v.rangeText =
      (Range.readRelease (Release.tripleChars a b c)).map fun _ => decide (v.Admits [a, b, c]) := by
  obtain ⟨is, hread, hr⟩ := Range.read_rangeText hv
  rw [Range.satisfies, tripleText, String.toList_ofList, Parts.chars_ofNumbers, hread]
  cases h : Range.readRelease (Release.tripleChars a b c) with
  | error e => rfl
  | ok r =>
    obtain ⟨-, rfl⟩ := Range.Partial.readRelease_tripleChars_eq_ok_iff.1 h
    have hs : is.any (·.contains (.ofNumbers a b c)) = decide (v.Admits [a, b, c]) := by
      rw [Bool.eq_iff_iff, decide_eq_true_iff]
      exact hr.contains_iff a b c
    change Except.ok (is.any (·.contains (.ofNumbers a b c))) = Except.ok _
    rw [hs]

theorem mem_triples_iff (hv : v.Short) : (a, b, c) ∈ v.triples ↔ WritableTriple (a, b, c) ∧ v.Admits [a, b, c] := by
  change Range.satisfies (tripleText a b c) v.rangeText = .ok true ↔ _
  rw [satisfies_rangeText_eq_map hv]
  constructor
  · intro h
    cases hr : Range.readRelease (Release.tripleChars a b c) with
    | error e => rw [hr] at h; cases h
    | ok r =>
      rw [hr] at h
      have hd : decide (v.Admits [a, b, c]) = true := Except.ok.inj h
      exact ⟨(Range.Partial.readRelease_tripleChars_eq_ok_iff.1 hr).1, of_decide_eq_true hd⟩
  · rintro ⟨hw, hadm⟩
    rw [Range.Partial.readRelease_tripleChars_eq_ok_iff.2 ⟨hw, rfl⟩, decide_eq_true hadm]
    rfl

end Version

end RuntimeRanges
