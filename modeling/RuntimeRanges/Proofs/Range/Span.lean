import RuntimeRanges.Proofs.Range.Single

/-!
What a partial version stands for as an interval. The comparators with it are the parts into which this interval divides
the releases: those before it, those in it and those behind it, and the two unions with a part at its side.
-/

namespace RuntimeRanges

open Std (OrientedCmp TransCmp)

namespace Interval

variable {i : Interval} {r : Release}

/-- The releases before the interval, from the origin on. -/
def ahead (i : Interval) : Interval :=
  ⟨.origin, some i.lower, true, !i.lowerIn⟩

/-- The releases behind the interval. -/
def behind (i : Interval) : Interval :=
  match i.upper with
  | none => nothing
  | some u => ⟨u, none, !i.upperIn, false⟩

/-- The releases up to the end of the interval, from the origin on. -/
def untilEnd (i : Interval) : Interval :=
  ⟨.origin, i.upper, true, i.upperIn⟩

/-- The releases from the beginning of the interval on. -/
def fromStart (i : Interval) : Interval :=
  ⟨i.lower, none, i.lowerIn, false⟩

theorem contains_ahead (hr : any.contains r = true) : i.ahead.contains r = !i.aboveLower r := by
  have hlow : i.ahead.aboveLower r = true := (contains_eq_true_iff.1 hr).1
  rw [contains, hlow, Bool.true_and]
  cases h : r.compare i.lower <;> simp [ahead, belowUpper, aboveLower, h]

theorem contains_nothing (r : Release) : nothing.contains r = false := by
  have hself : Release.origin.compare .origin = .eq := Std.ReflCmp.compare_self
  rw [Bool.eq_false_iff]
  intro hr
  have hempty : nothing.isEmpty = false := isEmpty_of_contains hr
  simp [nothing, isEmpty, hself] at hempty

theorem contains_behind : i.behind.contains r = !i.belowUpper r := by
  obtain ⟨l, u, lowerIn, upperIn⟩ := i
  cases u with
  | none => exact contains_nothing r
  | some u =>
    rw [contains, belowUpper_of_unbounded rfl, Bool.and_true]
    cases h : r.compare u <;> simp [behind, belowUpper, aboveLower, h]

theorem contains_untilEnd (hr : any.contains r = true) : i.untilEnd.contains r = i.belowUpper r := by
  have hlow : i.untilEnd.aboveLower r = true := (contains_eq_true_iff.1 hr).1
  rw [contains, hlow, Bool.true_and]
  rfl

theorem contains_fromStart : i.fromStart.contains r = i.aboveLower r := by
  rw [contains, belowUpper_of_unbounded rfl, Bool.and_true]
  rfl

/-- No release is both before and behind an interval that is not empty. -/
theorem belowUpper_of_not_aboveLower (hi : i.isEmpty = false) (hr : i.aboveLower r = false) :
    i.belowUpper r = true := by
  cases hu : i.upper with
  | none => exact belowUpper_of_unbounded hu r
  | some u =>
    rw [isEmpty_eq_false_iff hu] at hi
    rw [belowUpper_eq_true_iff hu]
    rw [aboveLower] at hr
    cases hc : r.compare i.lower with
    | lt =>
      rcases hi with hi | ⟨hi, -⟩
      · exact .inl (TransCmp.lt_trans hc hi)
      · exact .inl (TransCmp.lt_of_lt_of_eq hc hi)
    | eq =>
      rcases hi with hi | ⟨-, hin, -⟩
      · exact .inl (TransCmp.lt_of_eq_of_lt hc hi)
      · rw [hc, hin] at hr
        cases hr
    | gt =>
      rw [hc] at hr
      cases hr

end Interval

namespace Range

namespace Partial

variable {p : Partial}

/-- Where what the partial version stands for ends: at the first release past it, or at the release of a full one. -/
def ceiling : Partial → Option Release
  | any => none
  | major a => some (.ofNumbers (a + 1) 0 0)
  | minor a b => some (.ofNumbers a (b + 1) 0)
  | full _ _ _ release => some release

def isFull : Partial → Bool
  | full .. => true
  | _ => false

/-- The releases that the partial version stands for. -/
def span (p : Partial) : Interval :=
  ⟨p.floor, p.ceiling, true, p.isFull⟩

theorem isEmpty_span (p : Partial) : p.span.isEmpty = false := by
  cases p with
  | any => rfl
  | major a =>
    rw [Interval.isEmpty_eq_false_iff rfl]
    exact .inl (Release.compare_ofNumbers_eq_lt_iff.2 (.inl (Nat.lt_succ_self a)))
  | minor a b =>
    rw [Interval.isEmpty_eq_false_iff rfl]
    exact .inl (Release.compare_ofNumbers_eq_lt_iff.2 (.inr ⟨rfl, .inl (Nat.lt_succ_self b)⟩))
  | full a b c release =>
    rw [Interval.isEmpty_eq_false_iff rfl]
    exact .inr ⟨Std.ReflCmp.compare_self, rfl, rfl⟩

theorem ceiling?_eq (hp : p.Short) (hfull : p.isFull = false) : p.ceiling? = .ok p.ceiling := by
  cases p with
  | any => rfl
  | major a => rw [ceiling?, nextMajor_eq (hp a List.mem_cons_self)]; rfl
  | minor a b => rw [ceiling?, nextMinor_eq a (hp b (List.mem_cons_of_mem _ List.mem_cons_self))]; rfl
  | full a b c release => cases hfull

theorem equal_eq (hp : p.Short) : p.interval .equal = .ok p.span := by
  cases p with
  | full a b c release => rfl
  | any | major a | minor a b =>
    rw [interval, equal, ceiling?_eq hp rfl]
    · rfl
    · rintro _ _ _ _ ⟨⟩

theorem lessEqual_eq (hp : p.Short) : p.interval .lessEqual = .ok p.span.untilEnd := by
  cases p with
  | full a b c release => rfl
  | any | major a | minor a b =>
    rw [interval, lessEqual, ceiling?_eq hp rfl]
    · rfl
    · rintro _ _ _ _ ⟨⟩

theorem greater_eq (hp : p.Short) : p.interval .greater = .ok p.span.behind := by
  cases p with
  | full a b c release => rfl
  | any | major a | minor a b =>
    rw [interval, greater, ceiling?_eq hp rfl]
    · rfl
    · rintro _ _ _ _ ⟨⟩

theorem less_eq (p : Partial) : p.interval .less = .ok p.span.ahead := by
  cases p <;> rfl

theorem greaterEqual_eq (p : Partial) : p.interval .greaterEqual = .ok p.span.fromStart := rfl

end Partial

variable {release text : String} {r : Release} {p : Partial}

/-- A release from the origin on is before, in or behind what a partial version stands for: it satisfies exactly one of
the comparators `<`, `=` and `>` with it, and the other ones are unions of these. -/
theorem satisfies_trichotomy (hr : readRelease release.toList = .ok r)
    (horigin : (Release.origin.compare r).isLE = true)
    (hp : Partial.read (Text.trimEnd text.toList) = .ok p) (hruns : Numeral.ShortRuns text.toList) :
    ∃ less equal greater : Bool, satisfies release ("<" ++ text) = .ok less ∧
      satisfies release ("=" ++ text) = .ok equal ∧ satisfies release (">" ++ text) = .ok greater ∧
      [less, equal, greater].count true = 1 ∧ satisfies release text = .ok equal ∧
      satisfies release ("<=" ++ text) = .ok (less || equal) ∧
      satisfies release (">=" ++ text) = .ok (equal || greater) := by
  have hany : Interval.any.contains r = true := contains_any_iff.2 horigin
  have hshort : p.Short := Partial.short_of_read hruns.trimEnd hp
  have hin : p.span.contains r = (p.span.aboveLower r && p.span.belowUpper r) := rfl
  have hless := satisfies_sign_of_origin hr hany hp List.mem_cons_self p.less_eq
  have hlessEqual := satisfies_sign_of_origin hr hany hp List.mem_cons_self (Partial.lessEqual_eq hshort)
  have hbare := satisfies_sign_of_origin hr hany hp List.mem_cons_self (Partial.equal_eq hshort)
  have hsign : "=" ∈ Operator.equal.signs := List.mem_cons_of_mem _ List.mem_cons_self
  have hequal := satisfies_sign_of_origin hr hany hp hsign (Partial.equal_eq hshort)
  have hgreater := satisfies_sign_of_origin hr hany hp List.mem_cons_self (Partial.greater_eq hshort)
  have hgreaterEqual := satisfies_sign_of_origin hr hany hp List.mem_cons_self p.greaterEqual_eq
  rw [String.empty_append] at hbare
  rw [Interval.contains_ahead hany] at hless
  rw [Interval.contains_untilEnd hany] at hlessEqual
  rw [Interval.contains_behind] at hgreater
  rw [Interval.contains_fromStart] at hgreaterEqual
  refine ⟨_, _, _, hless, hequal, hgreater, ?_, hbare, hlessEqual.trans ?_, hgreaterEqual.trans ?_⟩
  all_goals
    rw [hin]
    have hor := Interval.belowUpper_of_not_aboveLower (r := r) p.isEmpty_span
    revert hor
    generalize p.span.aboveLower r = above
    generalize p.span.belowUpper r = below
    revert above below
    decide

/-- A pre-release of `2.0.0` is at the seam between what `1.x` stands for and what comes behind it. -/
theorem satisfies_trichotomy_seam :
    ∃ less equal greater : Bool, satisfies "2.0.0a0" ("<" ++ "v1.x") = .ok less ∧
      satisfies "2.0.0a0" "v1.x" = .ok equal ∧ satisfies "2.0.0a0" (">" ++ "v1.x") = .ok greater ∧
      [less, equal, greater].count true = 1 := by
  have hr : readRelease "2.0.0a0".toList = .ok { numbers := [2, 0, 0], pre := some (.alpha, 0) } := by rfl
  have hp : Partial.read (Text.trimEnd "v1.x".toList) = .ok (.major 1) := by rfl
  have horigin : (Release.origin.compare { numbers := [2, 0, 0], pre := some (.alpha, 0) }).isLE = true := by
    simp only [Release.compare, Release.origin, Release.ofNumbers, Release.compareNumbers]
    rfl
  obtain ⟨less, equal, greater, hless, -, hgreater, hone, hequal, -⟩ :=
    satisfies_trichotomy hr horigin hp (Numeral.shortRuns_of_length_lt (by decide))
  exact ⟨less, equal, greater, hless, hequal, hgreater, hone⟩

end Range

end RuntimeRanges
