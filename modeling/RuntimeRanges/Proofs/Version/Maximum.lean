import Mathlib.Data.List.Lex
import Mathlib.Order.WithBot
import RuntimeRanges.Proofs.Version.Ends
import RuntimeRanges.Proofs.Version.Reduction

/-!
Of two limits on one side a reduction keeps the larger one, in whatever order they are given. Components are ordered by
ranks, in which a wildcard is larger than all numbers in an upper limit and smaller than all of them in a lower one, and
parts lexicographically by the ranks of their components.
-/

namespace RuntimeRanges

open Std (OrientedCmp)

variable {side : Side} {comp comp' : Component} {p q : Parts}

namespace Side

/-- The place of a component among the ends of the limits on a side. -/
def rank (side : Side) : Component → WithBot (WithTop ℕ)
  | .number n => WithBot.some (WithTop.some n)
  | .wildcard => match side with | atMost => ⊤ | atLeast => ⊥

def ranks (side : Side) (p : Parts) : List (WithBot (WithTop ℕ)) :=
  p.components.map side.rank

theorem rank_lt_iff : side.rank comp < side.rank comp' ↔ side.compareComponents comp comp' = .lt := by
  cases comp with
  | number m =>
    cases comp' with
    | number n =>
      rw [rank, rank, WithBot.coe_lt_coe, WithTop.coe_lt_coe]
      exact Nat.compare_eq_lt.symm
    | wildcard =>
      cases side with
      | atMost => exact iff_of_true (WithBot.coe_lt_coe.2 (WithTop.coe_lt_top m)) rfl
      | atLeast => exact iff_of_false not_lt_bot nofun
  | wildcard =>
    cases comp' with
    | number n =>
      cases side with
      | atMost => exact iff_of_false not_top_lt nofun
      | atLeast => exact iff_of_true (WithBot.bot_lt_coe _) rfl
    | wildcard => exact iff_of_false (lt_irrefl _) nofun

theorem rank_injective (side : Side) : Function.Injective side.rank := by
  intro comp comp' h
  have hlt : side.compareComponents comp comp' ≠ .lt := fun hc => (rank_lt_iff.2 hc).ne h
  have hgt : side.compareComponents comp comp' ≠ .gt := fun hc =>
    (rank_lt_iff.2 (OrientedCmp.lt_of_gt hc)).ne h.symm
  apply compareComponents_eq_eq_iff.1
  cases hc : side.compareComponents comp comp' with
  | lt => exact absurd hc hlt
  | gt => exact absurd hc hgt
  | eq => rfl

theorem ranks_injective (side : Side) : Function.Injective side.ranks := by
  rintro ⟨major, minor, patch⟩ ⟨major', minor', patch'⟩ h
  obtain ⟨hmajor, hminor, hpatch⟩ : side.rank major = side.rank major' ∧ side.rank minor = side.rank minor' ∧
      side.rank patch = side.rank patch' := by
    simpa [ranks, Parts.components] using h
  rw [side.rank_injective hmajor, side.rank_injective hminor, side.rank_injective hpatch]

theorem ranks_lt_iff : side.ranks p < side.ranks q ↔ side.compareParts p q = .lt := by
  simp only [ranks, Parts.components, List.map_cons, List.map_nil, List.cons_lt_cons_iff, compareParts,
    Ordering.then_eq_lt, rank_lt_iff, side.rank_injective.eq_iff, compareComponents_eq_eq_iff, List.lt_irrefl,
    and_false, or_false]

end Side

namespace Version

variable {v w : Version} {l u : Limit}

theorem reduction?_of_lt (h : side.ranks p < side.ranks q) :
    (pair ⟨side, p⟩ ⟨side, q⟩).reduction? = some (limit ⟨side, q⟩) := by
  have hne : (⟨side, p⟩ : Limit) ≠ ⟨side, q⟩ := by
    rintro ⟨⟩
    exact lt_irrefl _ h
  rw [reduction?, if_neg hne, if_neg (not_not.2 rfl), Side.ranks_lt_iff.1 h]

theorem reduction?_of_gt (h : side.ranks q < side.ranks p) :
    (pair ⟨side, p⟩ ⟨side, q⟩).reduction? = some (limit ⟨side, p⟩) := by
  have hne : (⟨side, p⟩ : Limit) ≠ ⟨side, q⟩ := by
    rintro ⟨⟩
    exact lt_irrefl _ h
  have hgt : side.compareParts p q = .gt := OrientedCmp.gt_of_lt (Side.ranks_lt_iff.1 h)
  rw [reduction?, if_neg hne, if_neg (not_not.2 rfl), hgt]

/-- Two limits on one side are always reduced to one of them, and to the same one in both orders. -/
theorem exists_reduction?_eq (side : Side) (p q : Parts) :
    ∃ m, (m = p ∨ m = q) ∧ side.ranks m = max (side.ranks p) (side.ranks q) ∧
      (pair ⟨side, p⟩ ⟨side, q⟩).reduction? = some (limit ⟨side, m⟩) ∧
      (pair ⟨side, q⟩ ⟨side, p⟩).reduction? = some (limit ⟨side, m⟩) := by
  rcases lt_trichotomy (side.ranks p) (side.ranks q) with h | h | h
  · exact ⟨q, .inr rfl, (max_eq_right h.le).symm, reduction?_of_lt h, reduction?_of_gt h⟩
  · obtain rfl := side.ranks_injective h
    exact ⟨p, .inl rfl, (max_self _).symm, if_pos rfl, if_pos rfl⟩
  · exact ⟨p, .inl rfl, (max_eq_left h.le).symm, reduction?_of_gt h, reduction?_of_lt h⟩

theorem simplify_of_reduction? (h : v.reduction? = some w) : v.simplify = w := by
  rw [simplify, h, Option.getD_some]

theorem simplify_of_irreducible (h : v.reduction? = none) : v.simplify = v := by
  rw [simplify, h, Option.getD_none]

theorem reduction?_of_unbounded (h : v.second? = none) : v.reduction? = none := by
  cases v with
  | exact p => rfl
  | limit l => rfl
  | pair l u => cases h

theorem reduction?_of_sides_ne (hside : l.side ≠ u.side) (hparts : l.parts ≠ u.parts) :
    (pair l u).reduction? = none := by
  have hne : l ≠ u := fun h => hparts (congrArg Limit.parts h)
  rw [reduction?, if_neg hne, if_pos hside, if_neg hparts]

theorem simplify_simplify (v : Version) : v.simplify.simplify = v.simplify := by
  cases h : v.reduction? with
  | none => rw [simplify_of_irreducible h, simplify_of_irreducible h]
  | some w =>
    rw [simplify_of_reduction? h]
    exact simplify_of_irreducible (reduction?_of_unbounded (second?_of_reduction? h))

/-- Simplifying keeps the maximum of two limits on one side, whichever comes first. It changes neither limits on
different sides of different parts nor versions without a second bound, and it is idempotent. -/
theorem simplify_keeps_maximum :
    (∀ side p q, ∃ m, (m = p ∨ m = q) ∧ side.ranks m = max (side.ranks p) (side.ranks q) ∧
        (pair ⟨side, p⟩ ⟨side, q⟩).reduction? = some (limit ⟨side, m⟩) ∧
        (pair ⟨side, p⟩ ⟨side, q⟩).simplify = limit ⟨side, m⟩ ∧
        (pair ⟨side, q⟩ ⟨side, p⟩).simplify = limit ⟨side, m⟩) ∧
      (∀ l u, l.side ≠ u.side → l.parts ≠ u.parts → (pair l u).simplify = pair l u) ∧
      (∀ v : Version, v.second? = none → v.simplify = v) ∧ ∀ v : Version, v.simplify.simplify = v.simplify := by
  refine ⟨?_, ?_, ?_, simplify_simplify⟩
  · intro side p q
    obtain ⟨m, hm, hmax, hpq, hqp⟩ := exists_reduction?_eq side p q
    exact ⟨m, hm, hmax, hpq, simplify_of_reduction? hpq, simplify_of_reduction? hqp⟩
  · exact fun l u hside hparts => simplify_of_irreducible (reduction?_of_sides_ne hside hparts)
  · exact fun v h => simplify_of_irreducible (reduction?_of_unbounded h)

/-- The wildcard makes an upper limit the larger one, though the number it is compared with is not small. -/
theorem simplify_keeps_maximum_wildcard :
    (pair ⟨.atMost, ⟨.number 0, .wildcard, .number 0⟩⟩ ⟨.atMost, ⟨.number 0, .number 400, .number 7⟩⟩).simplify =
        limit ⟨.atMost, ⟨.number 0, .wildcard, .number 0⟩⟩ ∧
      (pair ⟨.atLeast, ⟨.number 1, .wildcard, .wildcard⟩⟩ ⟨.atMost, ⟨.number 2, .number 0, .number 0⟩⟩).simplify =
        pair ⟨.atLeast, ⟨.number 1, .wildcard, .wildcard⟩⟩ ⟨.atMost, ⟨.number 2, .number 0, .number 0⟩⟩ := by
  obtain ⟨hmax, hmixed, -, -⟩ := simplify_keeps_maximum
  obtain ⟨m, hm | hm, hrank, -, hs, -⟩ :=
    hmax .atMost ⟨.number 0, .wildcard, .number 0⟩ ⟨.number 0, .number 400, .number 7⟩
  · exact ⟨hm ▸ hs, hmixed _ _ (by decide) (by decide)⟩
  · subst hm
    have hle := hrank ▸ le_max_left (Side.atMost.ranks ⟨.number 0, .wildcard, .number 0⟩) _
    exact absurd hle (not_le_of_gt (Side.ranks_lt_iff.2 (by decide)))

end Version

end RuntimeRanges
