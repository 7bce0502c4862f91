import RuntimeRanges.Interval
import RuntimeRanges.Proofs.Release.Order

/-!
Intervals as sets of releases: an interval whose ends leave nothing contains nothing, the common part of two
intervals contains what both contain, and an interval that includes its lower end contains it unless empty.
-/

namespace RuntimeRanges.Interval

open Std (OrientedCmp TransCmp)

variable {i j : Interval} {r s : Release}

theorem aboveLower_eq_true_iff :
    i.aboveLower r = true ↔ i.lower.compare r = .lt ∨ i.lower.compare r = .eq ∧ i.lowerIn = true := by
  have hs : r.compare i.lower = (i.lower.compare r).swap := OrientedCmp.eq_swap
  rw [aboveLower, hs]
  cases i.lower.compare r <;> simp

theorem belowUpper_eq_true_iff {u : Release} (hu : i.upper = some u) :
    i.belowUpper r = true ↔ r.compare u = .lt ∨ r.compare u = .eq ∧ i.upperIn = true := by
  rw [belowUpper, hu]
  cases hc : r.compare u <;> simp [hc]

theorem belowUpper_of_unbounded (hu : i.upper = none) (r : Release) : i.belowUpper r = true := by
  rw [belowUpper, hu]

theorem contains_eq_true_iff : i.contains r = true ↔ i.aboveLower r = true ∧ i.belowUpper r = true := by
  rw [contains, Bool.and_eq_true]

theorem aboveLower_of_lt (h : j.lower.compare i.lower = .lt) (hr : i.aboveLower r = true) :
    j.aboveLower r = true := by
  rw [aboveLower_eq_true_iff] at hr ⊢
  rcases hr with hr | ⟨hr, _⟩
  · exact .inl (TransCmp.lt_trans h hr)
  · exact .inl (TransCmp.lt_of_lt_of_eq h hr)

theorem belowUpper_of_lt {u w : Release} (hu : i.upper = some u) (hw : j.upper = some w)
    (h : u.compare w = .lt) (hr : i.belowUpper r = true) : j.belowUpper r = true := by
  rw [belowUpper_eq_true_iff hu] at hr
  rw [belowUpper_eq_true_iff hw]
  rcases hr with hr | ⟨hr, _⟩
  · exact .inl (TransCmp.lt_trans hr h)
  · exact .inl (TransCmp.lt_of_eq_of_lt hr h)

theorem aboveLower_meet : (i.meet j).aboveLower r = (i.aboveLower r && j.aboveLower r) := by
  cases h : i.lower.compare j.lower with
  | lt =>
    have he : (i.meet j).aboveLower r = j.aboveLower r := by simp [meet, meetLower, aboveLower, h]
    rw [he, Bool.eq_iff_iff, Bool.and_eq_true]
    exact ⟨fun hr => ⟨aboveLower_of_lt h hr, hr⟩, And.right⟩
  | gt =>
    have he : (i.meet j).aboveLower r = i.aboveLower r := by simp [meet, meetLower, aboveLower, h]
    rw [he, Bool.eq_iff_iff, Bool.and_eq_true]
    exact ⟨fun hr => ⟨hr, aboveLower_of_lt (OrientedCmp.lt_of_gt h) hr⟩, And.left⟩
  | eq =>
    have hc : r.compare j.lower = r.compare i.lower := (TransCmp.congr_right h).symm
    simp only [meet, meetLower, aboveLower, h, hc]
    cases r.compare i.lower <;> rfl

theorem belowUpper_meet : (i.meet j).belowUpper r = (i.belowUpper r && j.belowUpper r) := by
  cases hu : i.upper with
  | none =>
    rw [belowUpper_of_unbounded hu, Bool.true_and]
    cases hw : j.upper <;> simp [meet, meetUpper, belowUpper, hu, hw]
  | some u =>
    cases hw : j.upper with
    | none =>
      rw [belowUpper_of_unbounded hw, Bool.and_true]
      simp [meet, meetUpper, belowUpper, hu, hw]
    | some w =>
      cases h : u.compare w with
      | lt =>
        have he : (i.meet j).belowUpper r = i.belowUpper r := by
          simp [meet, meetUpper, belowUpper, hu, hw, h]
        rw [he, Bool.eq_iff_iff, Bool.and_eq_true]
        exact ⟨fun hr => ⟨hr, belowUpper_of_lt hu hw h hr⟩, And.left⟩
      | gt =>
        have he : (i.meet j).belowUpper r = j.belowUpper r := by
          simp [meet, meetUpper, belowUpper, hu, hw, h]
        rw [he, Bool.eq_iff_iff, Bool.and_eq_true]
        exact ⟨fun hr => ⟨belowUpper_of_lt hw hu (OrientedCmp.lt_of_gt h) hr, hr⟩, And.right⟩
      | eq =>
        have hc : r.compare w = r.compare u := (TransCmp.congr_right h).symm
        simp only [meet, meetUpper, belowUpper, hu, hw, h, hc]
        cases r.compare u <;> rfl

theorem contains_meet_eq (i j : Interval) (r : Release) :
    (i.meet j).contains r = (i.contains r && j.contains r) := by
  rw [contains, aboveLower_meet, belowUpper_meet, contains, contains]
  ac_rfl

theorem isEmpty_eq_false_iff {u : Release} (hu : i.upper = some u) :
    i.isEmpty = false ↔
      i.lower.compare u = .lt ∨ i.lower.compare u = .eq ∧ i.lowerIn = true ∧ i.upperIn = true := by
  rw [isEmpty, hu]
  cases hc : i.lower.compare u <;> simp [hc]

theorem isEmpty_of_contains (h : i.contains r = true) : i.isEmpty = false := by
  obtain ⟨hl, hb⟩ := contains_eq_true_iff.1 h
  cases hu : i.upper with
  | none => rw [isEmpty, hu]
  | some u =>
    rw [aboveLower_eq_true_iff] at hl
    rw [belowUpper_eq_true_iff hu] at hb
    rw [isEmpty_eq_false_iff hu]
    rcases hl with hl | ⟨hl, hin⟩
    · rcases hb with hb | ⟨hb, _⟩
      · exact .inl (TransCmp.lt_trans hl hb)
      · exact .inl (TransCmp.lt_of_lt_of_eq hl hb)
    · rcases hb with hb | ⟨hb, hin'⟩
      · exact .inl (TransCmp.lt_of_eq_of_lt hl hb)
      · exact .inr ⟨TransCmp.eq_trans hl hb, hin, hin'⟩

theorem any_contains_filter (is : List Interval) (r : Release) :
    (is.filter fun i => !i.isEmpty).any (·.contains r) = is.any (·.contains r) := by
  rw [List.any_filter]
  congr 1
  funext i
  cases hc : i.contains r with
  | false => rw [Bool.and_false]
  | true => rw [isEmpty_of_contains hc]; rfl

theorem contains_lower (hin : i.lowerIn = true) (h : i.isEmpty = false) : i.contains i.lower = true := by
  have hs : i.lower.compare i.lower = .eq := Std.ReflCmp.compare_self
  rw [contains_eq_true_iff, aboveLower_eq_true_iff]
  refine ⟨.inr ⟨hs, hin⟩, ?_⟩
  cases hu : i.upper with
  | none => exact belowUpper_of_unbounded hu _
  | some u =>
    rw [belowUpper_eq_true_iff hu]
    rw [isEmpty_eq_false_iff hu] at h
    exact h.imp_right fun ⟨he, _, hu⟩ => ⟨he, hu⟩

end RuntimeRanges.Interval
