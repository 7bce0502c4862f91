import Mathlib.Order.WithBot
import RuntimeRanges.Proofs.Interval

/-!
The common part of two intervals is their meet. An interval lies between two cuts of the order of releases, of which
the upper one may be missing and is then larger than all others; the common part has the larger one of the lower cuts
and the smaller one of the upper cuts.
-/

namespace RuntimeRanges

open Std (OrientedCmp TransCmp)

/-- A cut of the order of releases: right in front of a release, or right behind it. -/
structure Cut where
  release : Release
  behind : Bool

namespace Cut

variable {c d : Cut} {r s : Release} {a b : Bool}

/-- Cuts are ordered as their releases are, and at one release the cut in front of it comes first. -/
instance : LE Cut where
  le c d := c.release.compare d.release = .lt ∨ c.release.compare d.release = .eq ∧ c.behind ≤ d.behind

theorem le_iff :
    c ≤ d ↔ c.release.compare d.release = .lt ∨ c.release.compare d.release = .eq ∧ c.behind ≤ d.behind :=
  Iff.rfl

instance : Preorder Cut where
  le_refl c := .inr ⟨Std.ReflCmp.compare_self, le_rfl⟩
  le_trans c d e hcd hde := by
    rcases hcd with hcd | ⟨hcd, hb⟩
    · rcases hde with hde | ⟨hde, -⟩
      · exact .inl (TransCmp.lt_trans hcd hde)
      · exact .inl (TransCmp.lt_of_lt_of_eq hcd hde)
    · rcases hde with hde | ⟨hde, hb'⟩
      · exact .inl (TransCmp.lt_of_eq_of_lt hcd hde)
      · exact .inr ⟨TransCmp.eq_trans hcd hde, hb.trans hb'⟩

/-- Cuts that are not larger than each other are at the same release, however it is spelled, and on the same side of
it. -/
theorem eq_of_le_of_le (hcd : c ≤ d) (hdc : d ≤ c) : c.release.compare d.release = .eq ∧ c.behind = d.behind := by
  rcases hcd with hcd | ⟨hcd, hb⟩
  · have hgt := OrientedCmp.gt_of_lt hcd
    rcases hdc with hdc | ⟨hdc, -⟩
    · rw [hgt] at hdc
      cases hdc
    · rw [hgt] at hdc
      cases hdc
  · rcases hdc with hdc | ⟨-, hb'⟩
    · rw [OrientedCmp.gt_of_lt hdc] at hcd
      cases hcd
    · exact ⟨hcd, le_antisymm hb hb'⟩

/-- The cuts that are not before either of two at one release are those not before the one that lies behind it, if there
is such a one. -/
theorem or_le_iff (h : r.compare s = .eq) : Cut.mk r (a || b) ≤ c ↔ Cut.mk r a ≤ c ∧ Cut.mk s b ≤ c := by
  have hs : s.compare c.release = r.compare c.release := (TransCmp.congr_left h).symm
  simp only [le_iff, hs]
  cases r.compare c.release <;> cases a <;> cases b <;> cases c.behind <;> decide

theorem le_and_iff (h : r.compare s = .eq) : c ≤ Cut.mk r (a && b) ↔ c ≤ Cut.mk r a ∧ c ≤ Cut.mk s b := by
  have hs : c.release.compare s = c.release.compare r := (TransCmp.congr_right h).symm
  simp only [le_iff, hs]
  cases c.release.compare r <;> cases a <;> cases b <;> cases c.behind <;> decide

end Cut

namespace Interval

variable {i j k : Interval} {c : Cut}

/-- The cut that an interval begins at. -/
def lowerCut (i : Interval) : Cut :=
  ⟨i.lower, !i.lowerIn⟩

/-- The cut that an interval ends at; without an upper end it is larger than all cuts. -/
def upperCut (i : Interval) : WithTop Cut :=
  match i.upper with
  | none => ⊤
  | some u => WithTop.some ⟨u, i.upperIn⟩

theorem upperCut_of_unbounded (hu : i.upper = none) : i.upperCut = ⊤ := by
  rw [upperCut, hu]

theorem upperCut_of_bounded {u : Release} (hu : i.upper = some u) : i.upperCut = WithTop.some ⟨u, i.upperIn⟩ := by
  rw [upperCut, hu]

theorem lowerCut_meet_le_iff : (i.meet j).lowerCut ≤ c ↔ i.lowerCut ≤ c ∧ j.lowerCut ≤ c := by
  cases h : i.lower.compare j.lower with
  | lt =>
    have hm : (i.meet j).lowerCut = j.lowerCut := by simp [lowerCut, meet, meetLower, h]
    have hle : i.lowerCut ≤ j.lowerCut := .inl h
    rw [hm]
    exact ⟨fun hj => ⟨hle.trans hj, hj⟩, And.right⟩
  | gt =>
    have hm : (i.meet j).lowerCut = i.lowerCut := by simp [lowerCut, meet, meetLower, h]
    have hle : j.lowerCut ≤ i.lowerCut := .inl (OrientedCmp.lt_of_gt h)
    rw [hm]
    exact ⟨fun hi => ⟨hi, hle.trans hi⟩, And.left⟩
  | eq =>
    have hm : (i.meet j).lowerCut = ⟨i.lower, !i.lowerIn || !j.lowerIn⟩ := by
      simp [lowerCut, meet, meetLower, h]
    rw [hm]
    exact Cut.or_le_iff h

theorem le_upperCut_meet_iff {c : WithTop Cut} : c ≤ (i.meet j).upperCut ↔ c ≤ i.upperCut ∧ c ≤ j.upperCut := by
  cases hu : i.upper with
  | none =>
    have hm : (i.meet j).upperCut = j.upperCut := by
      cases hw : j.upper <;> simp [upperCut, meet, meetUpper, hu, hw]
    rw [hm, upperCut_of_unbounded hu]
    exact (and_iff_right le_top).symm
  | some u =>
    cases hw : j.upper with
    | none =>
      have hm : (i.meet j).upperCut = i.upperCut := by simp [upperCut, meet, meetUpper, hu, hw]
      rw [hm, upperCut_of_unbounded hw]
      exact (and_iff_left le_top).symm
    | some w =>
      have hi := upperCut_of_bounded hu
      have hj := upperCut_of_bounded hw
      cases h : u.compare w with
      | lt =>
        have hm : (i.meet j).upperCut = i.upperCut := by simp [upperCut, meet, meetUpper, hu, hw, h]
        have hle : i.upperCut ≤ j.upperCut := by
          rw [hi, hj]
          exact WithTop.coe_le_coe.2 (.inl h)
        rw [hm]
        exact ⟨fun hc => ⟨hc, hc.trans hle⟩, And.left⟩
      | gt =>
        have hm : (i.meet j).upperCut = j.upperCut := by simp [upperCut, meet, meetUpper, hu, hw, h]
        have hle : j.upperCut ≤ i.upperCut := by
          rw [hi, hj]
          exact WithTop.coe_le_coe.2 (.inl (OrientedCmp.lt_of_gt h))
        rw [hm]
        exact ⟨fun hc => ⟨hc.trans hle, hc⟩, And.right⟩
      | eq =>
        have hm : (i.meet j).upperCut = WithTop.some ⟨u, i.upperIn && j.upperIn⟩ := by
          simp [upperCut, meet, meetUpper, hu, hw, h]
        rw [hm, hi, hj]
        cases c with
        | top => exact iff_of_false (WithTop.not_top_le_coe _) fun hc => WithTop.not_top_le_coe _ hc.1
        | coe c =>
          simp only [WithTop.coe_le_coe]
          exact Cut.le_and_iff h

/-- One interval lies within another by its ends. -/
structure Within (i j : Interval) : Prop where
  lower : j.lowerCut ≤ i.lowerCut
  upper : i.upperCut ≤ j.upperCut

theorem Within.refl (i : Interval) : i.Within i :=
  ⟨le_rfl, le_rfl⟩

theorem Within.trans (hij : i.Within j) (hjk : j.Within k) : i.Within k :=
  ⟨hjk.lower.trans hij.lower, hij.upper.trans hjk.upper⟩

theorem within_meet_iff : k.Within (i.meet j) ↔ k.Within i ∧ k.Within j := by
  constructor
  · rintro ⟨hl, hu⟩
    obtain ⟨hli, hlj⟩ := lowerCut_meet_le_iff.1 hl
    obtain ⟨hui, huj⟩ := le_upperCut_meet_iff.1 hu
    exact ⟨⟨hli, hui⟩, ⟨hlj, huj⟩⟩
  · rintro ⟨⟨hli, hui⟩, ⟨hlj, huj⟩⟩
    exact ⟨lowerCut_meet_le_iff.2 ⟨hli, hlj⟩, le_upperCut_meet_iff.2 ⟨hui, huj⟩⟩

theorem meet_within_left (i j : Interval) : (i.meet j).Within i :=
  (within_meet_iff.1 (.refl _)).1

theorem meet_within_right (i j : Interval) : (i.meet j).Within j :=
  (within_meet_iff.1 (.refl _)).2

/-- The ends of two intervals are the same, up to how their releases are spelled. Whether an upper end that is missing
belongs to the interval does not count. -/
structure SameEnds (i j : Interval) : Prop where
  lower : i.lower.compare j.lower = .eq
  lowerIn : i.lowerIn = j.lowerIn
  upper : Option.Rel (fun u w => u.compare w = .eq) i.upper j.upper
  upperIn : i.upper ≠ none → i.upperIn = j.upperIn

theorem Within.sameEnds (hij : i.Within j) (hji : j.Within i) : i.SameEnds j := by
  obtain ⟨hlower, hin⟩ := Cut.eq_of_le_of_le hji.lower hij.lower
  have hlowerIn : i.lowerIn = j.lowerIn := Bool.not_inj hin
  have huij := hij.upper
  have huji := hji.upper
  cases hu : i.upper with
  | none =>
    rw [upperCut_of_unbounded hu] at huij
    cases hw : j.upper with
    | none => exact ⟨hlower, hlowerIn, by rw [hu, hw]; exact .none, fun h => absurd hu h⟩
    | some w =>
      rw [upperCut_of_bounded hw] at huij
      exact absurd huij (WithTop.not_top_le_coe _)
  | some u =>
    rw [upperCut_of_bounded hu] at huij huji
    cases hw : j.upper with
    | none =>
      rw [upperCut_of_unbounded hw] at huji
      exact absurd huji (WithTop.not_top_le_coe _)
    | some w =>
      rw [upperCut_of_bounded hw, WithTop.coe_le_coe] at huij huji
      obtain ⟨hupper, hupperIn⟩ := Cut.eq_of_le_of_le huij huji
      exact ⟨hlower, hlowerIn, by rw [hu, hw]; exact .some hupper, fun _ => hupperIn⟩

theorem meet_comm_sameEnds (i j : Interval) : (i.meet j).SameEnds (j.meet i) :=
  have h (i j : Interval) : (i.meet j).Within (j.meet i) :=
    within_meet_iff.2 ⟨meet_within_right i j, meet_within_left i j⟩
  (h i j).sameEnds (h j i)

theorem meet_assoc_sameEnds (i j k : Interval) : ((i.meet j).meet k).SameEnds (i.meet (j.meet k)) := by
  apply Within.sameEnds
  · have hij := meet_within_left (i.meet j) k
    refine within_meet_iff.2 ⟨hij.trans (meet_within_left i j), within_meet_iff.2 ⟨?_, meet_within_right _ k⟩⟩
    exact hij.trans (meet_within_right i j)
  · have hjk := meet_within_right i (j.meet k)
    refine within_meet_iff.2 ⟨within_meet_iff.2 ⟨meet_within_left i _, ?_⟩, hjk.trans (meet_within_right j k)⟩
    exact hjk.trans (meet_within_left j k)

theorem meet_self_sameEnds (i : Interval) : (i.meet i).SameEnds i :=
  (meet_within_left i i).sameEnds (within_meet_iff.2 ⟨.refl i, .refl i⟩)

/-- The laws of the common part: it contains what both intervals contain, what lies within both by its ends lies within
it, and up to the spelling of the ends it is commutative, associative and idempotent. An interval that is empty by its
ends contains nothing. -/
theorem meet_laws (i j k : Interval) (r : Release) :
    ((i.meet j).contains r = true ↔ i.contains r = true ∧ j.contains r = true) ∧
      (i.isEmpty = true → i.contains r = false) ∧
      (k.Within (i.meet j) ↔ k.Within i ∧ k.Within j) ∧
      (i.meet j).SameEnds (j.meet i) ∧
      ((i.meet j).meet k).SameEnds (i.meet (j.meet k)) ∧
      (i.meet i).SameEnds i := by
  refine ⟨?_, ?_, within_meet_iff, meet_comm_sameEnds i j, meet_assoc_sameEnds i j k, meet_self_sameEnds i⟩
  · rw [contains_meet_eq, Bool.and_eq_true]
  · intro hempty
    by_contra hr
    rw [isEmpty_of_contains (Bool.not_eq_false _ ▸ hr)] at hempty
    cases hempty

/-- From `1.0` to `1.0.0` there is nothing, as these are one release and the upper end is left out. -/
theorem meet_laws_of_spellings :
    (between ⟨0, [1, 0], none, none, none, []⟩ (.ofNumbers 1 0 0)).isEmpty = true ∧
      (between ⟨0, [1, 0], none, none, none, []⟩ (.ofNumbers 1 0 0)).contains (.ofNumbers 1 0 0) = false := by
  have hone : Release.compare ⟨0, [1, 0], none, none, none, []⟩ (.ofNumbers 1 0 0) = .eq := by
    simp only [Release.compare, Release.ofNumbers, Release.compareNumbers]
    rfl
  have hempty : (between ⟨0, [1, 0], none, none, none, []⟩ (.ofNumbers 1 0 0)).isEmpty = true := by
    simp only [isEmpty, between, hone]
    rfl
  exact ⟨hempty, (meet_laws _ .any .any _).2.1 hempty⟩

end Interval

end RuntimeRanges
