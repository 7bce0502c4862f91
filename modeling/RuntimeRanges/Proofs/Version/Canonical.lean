import RuntimeRanges.Proofs.Version.Editing
import RuntimeRanges.Proofs.Version.Ends
import RuntimeRanges.Proofs.Version.RoundTrip

/-!
The canonical form of a range name is a range name again. There is one exception: of two limits `<=v0.0.0` one is left,
and that is refused where it stands alone.
-/

namespace RuntimeRanges

namespace Side

theorem isLE_compareComponents_zero (comp : Component) :
    (atMost.compareComponents (.number 0) comp).isLE = true := by
  cases comp with
  | number n => exact Nat.isLE_compare.2 (Nat.zero_le n)
  | wildcard => rfl

theorem isLE_compareParts_zero (p : Parts) : (atMost.compareParts (.ofNumbers 0 0 0) p).isLE = true := by
  simp only [compareParts, Ordering.isLE_then_iff_and]
  exact ⟨isLE_compareComponents_zero _, .inr ⟨isLE_compareComponents_zero _, .inr (isLE_compareComponents_zero _)⟩⟩

end Side

namespace Version

variable {v w : Version} {text : Scalar}

/-- Two limits that are refused where either of them stands alone, but not together. -/
def zeroPair : Version :=
  pair ⟨.atMost, .ofNumbers 0 0 0⟩ ⟨.atMost, .ofNumbers 0 0 0⟩

/-- The larger one of two upper ends is the origin only if both are. -/
theorem eq_zeroPair_of_reduction? (h : v.reduction? = some zeroLimit) : v = zeroPair := by
  cases v with
  | exact p => cases h
  | limit l => cases h
  | pair l u =>
    obtain ⟨rfl, hw⟩ | ⟨-, -, hw⟩ | ⟨hside, hlt, hw⟩ | ⟨hside, hgt, hw⟩ := reduction?_pair_cases h
    · cases hw
      rfl
    · cases hw
    · cases hw
      rw [hside] at hlt
      have hge := Side.isLE_compareParts_zero l.parts
      rw [Std.OrientedCmp.gt_of_lt hlt] at hge
      cases hge
    · cases hw
      have hle := Side.isLE_compareParts_zero u.parts
      rw [hgt] at hle
      cases hle

theorem Readable.of_reduction? (hv : v.Readable) (h : v.reduction? = some w) (hw : w ≠ zeroLimit) : w.Readable := by
  cases v with
  | exact p => cases h
  | limit l => cases h
  | pair l u =>
    have hl : l.parts.major ≠ .wildcard := hv.major
    have hu : u.parts.major ≠ .wildcard := hv.boundMajor u rfl
    obtain ⟨-, rfl⟩ | ⟨-, -, rfl⟩ | ⟨-, -, rfl⟩ | ⟨-, -, rfl⟩ := reduction?_pair_cases h
    · exact ⟨hu, nofun, hw⟩
    · exact ⟨hl, nofun, hw⟩
    · exact ⟨hu, nofun, hw⟩
    · exact ⟨hl, nofun, hw⟩

theorem Readable.simplify (hv : v.Readable) (hne : v ≠ zeroPair) : v.simplify.Readable := by
  rw [Version.simplify]
  cases h : v.reduction? with
  | none => exact hv
  | some w =>
    refine hv.of_reduction? h ?_
    rintro rfl
    exact hne (eq_zeroPair_of_reduction? h)

/-- What is read and simplified can be written and read again, unless it is the pair of two limits `<=v0.0.0`: that is
simplified to `<=v0.0.0`, whose text is refused. -/
theorem read_simplify (h : read text = .ok v) :
    (v ≠ zeroPair → read v.simplify.text = .ok v.simplify) ∧
      (v = zeroPair → read v.simplify.text = .error (.fault ⟨v.simplify.text, .nonsensical⟩)) := by
  obtain ⟨hw, hr, -⟩ := of_read_eq_ok h
  constructor
  · intro hne
    exact (read_text_eq_ok_iff (writable_simplify hw)).2 (hr.simplify hne)
  · rintro rfl
    have hzero : zeroPair.simplify = zeroLimit := rfl
    exact read_text_of_not_readable (writable_simplify hw) fun hread => hread.ne_zeroLimit hzero

/-- Limits on opposite sides of the same parts leave wildcards behind the major number, which can be read. -/
theorem read_simplify_opposite :
    read "<=v04.4.x_>=v4.4.x" =
        .ok (pair ⟨.atMost, ⟨.number 4, .number 4, .wildcard⟩⟩ ⟨.atLeast, ⟨.number 4, .number 4, .wildcard⟩⟩) ∧
      read "v4.x.x" = .ok (exact ⟨.number 4, .wildcard, .wildcard⟩) := by
  have h : read "<=v04.4.x_>=v4.4.x" =
      .ok (pair ⟨.atMost, ⟨.number 4, .number 4, .wildcard⟩⟩ ⟨.atLeast, ⟨.number 4, .number 4, .wildcard⟩⟩) := by rfl
  exact ⟨h, (read_simplify h).1 (by decide)⟩

/-- Two limits `<=v0.0.0` make a range name, and what they are simplified to does not. -/
theorem not_read_simplify_zeroPair :
    read "<=v0.0.0_<=v0.0.0" = .ok zeroPair ∧
      read zeroPair.simplify.text = .error (.fault ⟨"<=v0.0.0", .nonsensical⟩) := by
  have h : read "<=v0.0.0_<=v0.0.0" = .ok zeroPair := by rfl
  exact ⟨h, by rfl⟩

end Version

end RuntimeRanges
