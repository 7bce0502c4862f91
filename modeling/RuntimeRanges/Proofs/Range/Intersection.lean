import RuntimeRanges.Proofs.Interval
import RuntimeRanges.Proofs.Range.Ends
import RuntimeRanges.Proofs.Release.Text
import RuntimeRanges.Proofs.Version.Intersection

/-!
Ranges intersect exactly where some release satisfies both. An interval that is not empty by its ends contains a
release even if neither end belongs to it: a plain release with a local part put behind it comes after the plain one and
before every other plain release that does.
-/

namespace RuntimeRanges

namespace Release

variable {r u : Release} {part : LocalPart} {parts : List LocalPart}

/-- Compares releases without their local parts. -/
def compareStem (r s : Release) : Ordering :=
  (Ord.compare r.epoch s.epoch).then <|
    (compareNumbers r.numbers s.numbers).then <|
      (comparePair r.preRank s.preRank).then <|
        (Ord.compare r.postRank s.postRank).then <| comparePair r.devRank s.devRank

theorem compare_eq_then (r s : Release) : r.compare s = (compareStem r s).then (compareLocal r.localParts s.localParts) := by
  simp only [compare, compareStem, Ordering.then_assoc]

/-- A local part makes a release come later. -/
theorem Plain.lt_local (h : r.Plain) : r.compare { r with localParts := part :: parts } = .lt := by
  have hself : r.compare r = .eq := Std.ReflCmp.compare_self
  rw [compare_eq_then, Ordering.then_eq_eq] at hself
  have hstem : compareStem r { r with localParts := part :: parts } = .eq := hself.1
  rw [compare_eq_then, hstem, h.localParts]
  rfl

/-- No local part makes a release reach a later plain one. -/
theorem Plain.local_lt (hr : r.Plain) (hu : u.Plain) (h : r.compare u = .lt) :
    { r with localParts := parts }.compare u = .lt := by
  rw [compare_eq_then, hr.localParts, hu.localParts] at h
  rcases Ordering.then_eq_lt.1 h with hstem | ⟨-, hlocal⟩
  · have hstem : compareStem { r with localParts := parts } u = .lt := hstem
    rw [compare_eq_then, hstem]
    rfl
  · cases hlocal

end Release

namespace Interval

variable {i : Interval}

theorem PlainEnds.contains_local (h : i.PlainEnds) (hin : i.lowerIn = false) (he : i.isEmpty = false) (part : LocalPart) :
    i.contains { i.lower with localParts := [part] } = true := by
  rw [contains_eq_true_iff, aboveLower_eq_true_iff]
  refine ⟨.inl h.lower.lt_local, ?_⟩
  cases hu : i.upper with
  | none => exact belowUpper_of_unbounded hu _
  | some u =>
    rw [belowUpper_eq_true_iff hu]
    rw [isEmpty_eq_false_iff hu, hin] at he
    rcases he with he | ⟨-, he, -⟩
    · exact .inl (h.lower.local_lt (h.upper u hu) he)
    · cases he

/-- An interval with plain ends that is not empty contains a release that has a text. -/
theorem PlainEnds.exists_release (h : i.PlainEnds) (he : i.isEmpty = false) :
    ∃ (cs : List Char) (r : Release), Release.read cs = .ok r ∧ i.contains r = true := by
  cases hin : i.lowerIn with
  | true => exact ⟨i.lower.chars, i.lower, h.lower.read_chars, contains_lower hin he⟩
  | false =>
    refine ⟨i.lower.chars ++ ['+', '0'], { i.lower with localParts := [.number 0] }, ?_, h.contains_local hin he _⟩
    exact h.lower.read_chars_append (by rintro _ ⟨⟩; rfl) (Release.isSettled_of_all (by decide)) rfl rfl

end Interval

namespace Range

variable {left right release : String} {is js : List Interval} {r : Release}

theorem satisfies_of_contains (h : read left = .ok is) (hr : readRelease release.toList = .ok r)
    (hc : is.any (·.contains r) = true) : satisfies release left = .ok true := by
  rw [satisfies, hr, h]
  exact congrArg Except.ok hc

theorem exists_contains_of_satisfies (h : read left = .ok is) (hs : satisfies release left = .ok true) :
    ∃ r, readRelease release.toList = .ok r ∧ is.any (·.contains r) = true := by
  obtain ⟨r, hr, hs⟩ := bind_eq_ok_iff.1 hs
  rw [h] at hs
  exact ⟨r, hr, Except.ok.inj hs⟩

theorem any_meet_iff_exists_release (hl : read left = .ok is) (hr : read right = .ok js) :
    (is.any fun i => js.any fun j => !(i.meet j).isEmpty) = true ↔
      ∃ release, satisfies release left = .ok true ∧ satisfies release right = .ok true := by
  constructor
  · intro h
    simp only [List.any_eq_true, Bool.not_eq_true'] at h
    obtain ⟨i, hi, j, hj, hne⟩ := h
    have hends := (plainEnds_of_read hl i hi).1.meet (plainEnds_of_read hr j hj).1
    obtain ⟨cs, r, hread, hin⟩ := hends.exists_release hne
    rw [Interval.contains_meet_eq, Bool.and_eq_true] at hin
    have hcs : readRelease (String.ofList cs).toList = .ok r := by
      rw [String.toList_ofList]
      exact readRelease_eq_ok_iff.2 hread
    refine ⟨String.ofList cs, satisfies_of_contains hl hcs ?_, satisfies_of_contains hr hcs ?_⟩
    · exact List.any_eq_true.2 ⟨i, hi, hin.1⟩
    · exact List.any_eq_true.2 ⟨j, hj, hin.2⟩
  · rintro ⟨release, hsl, hsr⟩
    obtain ⟨r, hread, hil⟩ := exists_contains_of_satisfies hl hsl
    obtain ⟨s, hread', hir⟩ := exists_contains_of_satisfies hr hsr
    rw [hread] at hread'
    cases hread'
    exact intersects_of_triple hil hir

/-- The test for an intersection is exact for all ranges that can be read: it succeeds if and only if some text of a
release, possibly one with a local part, satisfies both. In particular the order of the ranges does not matter. -/
theorem intersects_iff_exists_release (hl : read left = .ok is) (hr : read right = .ok js) :
    ∃ shared, intersects left right = .ok shared ∧ intersects right left = .ok shared ∧
      (shared = true ↔ ∃ release, satisfies release left = .ok true ∧ satisfies release right = .ok true) := by
  have hswap : (js.any fun j => is.any fun i => !(j.meet i).isEmpty) =
      is.any fun i => js.any fun j => !(i.meet j).isEmpty := by
    rw [Bool.eq_iff_iff, any_meet_iff_exists_release hr hl, any_meet_iff_exists_release hl hr]
    simp only [and_comm]
  refine ⟨_, intersects_eq hl hr, ?_, any_meet_iff_exists_release hl hr⟩
  rw [intersects_eq hr hl, hswap]

/-- Between two pre-releases that follow each other there are only local parts of the first. -/
theorem intersects_iff_exists_release_neighbours :
    intersects ">1.0.0-rc.1" "<1.0.0-rc.2" = .ok true ∧
      ∃ release, satisfies release ">1.0.0-rc.1" = .ok true ∧ satisfies release "<1.0.0-rc.2" = .ok true := by
  obtain ⟨is, hl⟩ : ∃ is, read ">1.0.0-rc.1" = .ok is := ⟨_, rfl⟩
  obtain ⟨js, hr⟩ : ∃ js, read "<1.0.0-rc.2" = .ok js := ⟨_, rfl⟩
  obtain ⟨shared, hshared, -, hiff⟩ := intersects_iff_exists_release hl hr
  have htrue : intersects ">1.0.0-rc.1" "<1.0.0-rc.2" = .ok true := by
    have hleft : readAlternatives (Text.splitBars ">1.0.0-rc.1".toList) =
        .ok [Interval.any.meet (.beyond { numbers := [1, 0, 0], pre := some (.candidate, 1) })] := by rfl
    have hright : readAlternatives (Text.splitBars "<1.0.0-rc.2".toList) =
        .ok [Interval.any.meet (.before { numbers := [1, 0, 0], pre := some (.candidate, 2) })] := by rfl
    rw [intersects, read, readChars, hleft, read, readChars, hright]
    simp only [Interval.meet, Interval.meetLower, Interval.meetUpper, Interval.isEmpty, Release.compare,
      Release.compareNumbers_eq_compareLex]
    rfl
  rw [htrue] at hshared
  cases hshared
  exact ⟨htrue, hiff.1 rfl⟩

end Range

end RuntimeRanges
