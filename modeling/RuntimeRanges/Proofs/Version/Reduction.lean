import RuntimeRanges.Version.Reduction

/-!
What a reduction leaves: a version without a second bound, or a pair of limits on different sides.
-/

namespace RuntimeRanges

namespace Side

theorem compareComponents_eq_eq_iff {side : Side} {comp comp' : Component} :
    side.compareComponents comp comp' = .eq ↔ comp = comp' := by
  cases comp <;> cases comp' <;> cases side <;> simp [compareComponents]

theorem compareParts_eq_eq_iff {side : Side} {p q : Parts} : side.compareParts p q = .eq ↔ p = q := by
  obtain ⟨major, minor, patch⟩ := p
  obtain ⟨major', minor', patch'⟩ := q
  simp [compareParts, Ordering.then_eq_eq, compareComponents_eq_eq_iff]

end Side

namespace Version

variable {v w : Version} {l u : Limit}

theorem reduction?_pair_cases (h : (pair l u).reduction? = some w) :
    (l = u ∧ w = limit u) ∨
      (l.side ≠ u.side ∧ l.parts = u.parts ∧ w = exact ⟨l.parts.major, .wildcard, .wildcard⟩) ∨
        (l.side = u.side ∧ l.side.compareParts l.parts u.parts = .lt ∧ w = limit u) ∨
          (l.side = u.side ∧ l.side.compareParts l.parts u.parts = .gt ∧ w = limit l) := by
  rw [reduction?] at h
  split at h
  · next heq => exact .inl ⟨heq, (Option.some.inj h).symm⟩
  · split at h
    · next hside =>
      split at h
      · next hparts => exact .inr (.inl ⟨hside, hparts, (Option.some.inj h).symm⟩)
      · cases h
    · next hside =>
      have hsame : l.side = u.side := Decidable.not_not.1 hside
      split at h
      · next hc => exact .inr (.inr (.inl ⟨hsame, hc, (Option.some.inj h).symm⟩))
      · next hc => exact .inr (.inr (.inr ⟨hsame, hc, (Option.some.inj h).symm⟩))
      · cases h

theorem second?_of_reduction? (h : v.reduction? = some w) : w.second? = none := by
  cases v with
  | exact p => cases h
  | limit l => cases h
  | pair l u =>
    obtain ⟨-, rfl⟩ | ⟨-, -, rfl⟩ | ⟨-, -, rfl⟩ | ⟨-, -, rfl⟩ := reduction?_pair_cases h <;> rfl

theorem sides_ne_of_reduction? (h : (pair l u).reduction? = none) : l.side ≠ u.side := by
  intro hside
  have hne : l ≠ u := by
    rintro rfl
    simp [reduction?] at h
  rw [reduction?, if_neg hne, if_neg (by simpa using hside)] at h
  cases hc : l.side.compareParts l.parts u.parts with
  | lt => simp [hc] at h
  | gt => simp [hc] at h
  | eq =>
    have hparts := Side.compareParts_eq_eq_iff.1 hc
    obtain ⟨side, p⟩ := l
    obtain ⟨side', q⟩ := u
    cases hside
    cases hparts
    exact hne rfl

theorem sides_ne_of_simplify (h : v.simplify = pair l u) : l.side ≠ u.side := by
  rw [simplify] at h
  cases hr : v.reduction? with
  | none =>
    rw [hr, Option.getD_none] at h
    rw [h] at hr
    exact sides_ne_of_reduction? hr
  | some w =>
    rw [hr, Option.getD_some] at h
    have hs := second?_of_reduction? hr
    rw [h] at hs
    cases hs

end Version

end RuntimeRanges
