import RuntimeRanges.Proofs.Version.RangeText

/-!
Satisfaction of ranges by triples of numbers, and by versions whose wildcards are filled in with digits.
-/

namespace RuntimeRanges

open Numeral (Short)

def tripleText (a b c : Nat) : String :=
  String.ofList (Parts.ofNumbers a b c).chars

namespace Range

variable {range : String} {is : List Interval} {a b c : Nat}

theorem satisfies_tripleText (h : read range = .ok is) (ha : Short a) (hb : Short b) (hc : Short c) :
    satisfies (tripleText a b c) range = .ok (is.any (·.contains (.ofNumbers a b c))) := by
  rw [satisfies, tripleText, String.toList_ofList, Parts.chars_ofNumbers,
    Partial.readRelease_tripleChars ha hb hc, h]
  rfl

theorem satisfies_of_represent {S : List Nat → Prop} [Decidable (S [a, b, c])] (h : read range = .ok is)
    (hr : Represent is S) (ha : Short a) (hb : Short b) (hc : Short c) :
    satisfies (tripleText a b c) range = .ok (decide (S [a, b, c])) := by
  have hs : is.any (·.contains (.ofNumbers a b c)) = decide (S [a, b, c]) := by
    rw [Bool.eq_iff_iff, decide_eq_true_iff]
    exact hr.contains_iff a b c
  rw [satisfies_tripleText h ha hb hc, hs]

/-- A triple that satisfies a range is in one of its intervals; no bound on its numbers is needed. -/
theorem contains_of_satisfies_tripleText (h : read range = .ok is)
    (hs : satisfies (tripleText a b c) range = .ok true) : is.any (·.contains (.ofNumbers a b c)) = true := by
  rw [satisfies, tripleText, String.toList_ofList, Parts.chars_ofNumbers, h] at hs
  cases hr : readRelease (Release.tripleChars a b c) with
  | error e => rw [hr] at hs; cases hs
  | ok r =>
    rw [hr] at hs
    obtain ⟨-, rfl⟩ := Partial.readRelease_tripleChars_eq_ok_iff.1 hr
    injection hs

end Range

namespace Version

/-- A version means what its text means: a triple satisfies the text of a short version as a range exactly if the
version admits it, and the reading never fails. -/
theorem satisfies_rangeText {v : Version} {a b c : Nat} (hv : v.Short) (ha : Numeral.Short a)
    (hb : Numeral.Short b) (hc : Numeral.Short c) :
    Range.satisfies (tripleText a b c) v.rangeText = .ok (decide (v.Admits [a, b, c])) := by
  obtain ⟨is, hread, hr⟩ := Range.read_rangeText hv
  exact Range.satisfies_of_represent hread hr ha hb hc

theorem satisfies_rangeText_pair :
    Range.satisfies (tripleText 1 9 9)
      (pair ⟨.atLeast, ⟨.number 1, .number 2, .wildcard⟩⟩ ⟨.atMost, ⟨.number 1, .wildcard, .number 3⟩⟩).rangeText =
        .ok true :=
  satisfies_rangeText (by decide +kernel) (by decide +kernel) (by decide +kernel) (by decide +kernel)

end Version

end RuntimeRanges
