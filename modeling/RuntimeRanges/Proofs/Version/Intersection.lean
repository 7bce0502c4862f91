import RuntimeRanges.Proofs.Version.Satisfaction

/-!
Intersections of the ranges of versions: they are found exactly where some triple satisfies both ranges.
-/

namespace RuntimeRanges

open Numeral (Short)

namespace Range

variable {left right : String} {is js : List Interval} {S T : List Nat → Prop}

theorem intersects_eq (hl : read left = .ok is) (hr : read right = .ok js) :
    intersects left right = .ok (is.any fun i => js.any fun j => !(i.meet j).isEmpty) := by
  rw [intersects, hl]
  cases is with
  | nil => rfl
  | cons i is =>
    change (read right >>= _) = _
    rw [hr]
    rfl

/-- Ranges intersect only where some triple of short numbers is in both of them. -/
theorem exists_triple_of_intersects (hl : Represent is S) (hr : Represent js T)
    (h : (is.any fun i => js.any fun j => !(i.meet j).isEmpty) = true) :
    ∃ a b c, Short a ∧ Short b ∧ Short c ∧ S [a, b, c] ∧ T [a, b, c] := by
  simp only [List.any_eq_true, Bool.not_eq_true'] at h
  obtain ⟨i, hi, j, hj, hne⟩ := h
  have hmeet := (hl.anchored i hi).meet (hr.anchored j hj)
  obtain ⟨a, b, c, ha, hb, hc, hin⟩ := hmeet.exists_triple hne
  rw [Interval.contains_meet_eq, Bool.and_eq_true] at hin
  refine ⟨a, b, c, ha, hb, hc, (hl.contains_iff a b c).1 ?_, (hr.contains_iff a b c).1 ?_⟩
  · exact List.any_eq_true.2 ⟨i, hi, hin.1⟩
  · exact List.any_eq_true.2 ⟨j, hj, hin.2⟩

theorem intersects_of_triple {r : Release} (hl : is.any (·.contains r) = true)
    (hr : js.any (·.contains r) = true) :
    (is.any fun i => js.any fun j => !(i.meet j).isEmpty) = true := by
  obtain ⟨i, hi, hri⟩ := List.any_eq_true.1 hl
  obtain ⟨j, hj, hrj⟩ := List.any_eq_true.1 hr
  have hmeet : (i.meet j).contains r = true := by
    rw [Interval.contains_meet_eq, hri, hrj]
    rfl
  have hne := Interval.isEmpty_of_contains hmeet
  exact List.any_eq_true.2 ⟨i, hi, List.any_eq_true.2 ⟨j, hj, by rw [hne]; rfl⟩⟩

end Range

namespace Version

/-- Whether some triple satisfies the ranges of both versions, once these are reduced. -/
def Overlaps (v w : Version) : Prop :=
  ∃ a b c, Range.satisfies (tripleText a b c) v.simplify.rangeText = .ok true ∧
    Range.satisfies (tripleText a b c) w.simplify.rangeText = .ok true

noncomputable instance (v w : Version) : Decidable (v.Overlaps w) :=
  Classical.propDecidable _

variable {v w : Version}

theorem overlaps_iff_admits (hv : v.Short) (hw : w.Short) :
    v.Overlaps w ↔ ∃ a b c, v.simplify.Admits [a, b, c] ∧ w.simplify.Admits [a, b, c] := by
  obtain ⟨is, hi, hri⟩ := Range.read_rangeText hv.simplify
  obtain ⟨js, hj, hrj⟩ := Range.read_rangeText hw.simplify
  constructor
  · rintro ⟨a, b, c, hsv, hsw⟩
    have hv' := Range.contains_of_satisfies_tripleText hi hsv
    have hw' := Range.contains_of_satisfies_tripleText hj hsw
    exact ⟨a, b, c, (hri.contains_iff a b c).1 hv', (hrj.contains_iff a b c).1 hw'⟩
  · rintro ⟨a, b, c, hsv, hsw⟩
    have hshared := Range.intersects_of_triple ((hri.contains_iff a b c).2 hsv) ((hrj.contains_iff a b c).2 hsw)
    obtain ⟨a, b, c, ha, hb, hc, hsv, hsw⟩ := Range.exists_triple_of_intersects hri hrj hshared
    refine ⟨a, b, c, ?_, ?_⟩
    · rw [Range.satisfies_of_represent hi hri ha hb hc, decide_eq_true hsv]
    · rw [Range.satisfies_of_represent hj hrj ha hb hc, decide_eq_true hsw]

/-- The test for an intersection never fails on the ranges of short versions, and finds the overlaps. -/
theorem intersects_rangeText (hv : v.Short) (hw : w.Short) :
    Range.intersects v.simplify.rangeText w.simplify.rangeText = .ok (decide (v.Overlaps w)) := by
  obtain ⟨is, hi, hri⟩ := Range.read_rangeText hv.simplify
  obtain ⟨js, hj, hrj⟩ := Range.read_rangeText hw.simplify
  have hshared : (is.any fun i => js.any fun j => !(i.meet j).isEmpty) = decide (v.Overlaps w) := by
    rw [Bool.eq_iff_iff, decide_eq_true_iff, overlaps_iff_admits hv hw]
    constructor
    · intro h
      obtain ⟨a, b, c, -, -, -, hsv, hsw⟩ := Range.exists_triple_of_intersects hri hrj h
      exact ⟨a, b, c, hsv, hsw⟩
    · rintro ⟨a, b, c, hsv, hsw⟩
      exact Range.intersects_of_triple ((hri.contains_iff a b c).2 hsv) ((hrj.contains_iff a b c).2 hsw)
  rw [Range.intersects_eq hi hj, hshared]

end Version

end RuntimeRanges
