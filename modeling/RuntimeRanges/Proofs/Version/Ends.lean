import RuntimeRanges.Proofs.Release.Order
import RuntimeRanges.Proofs.Version.Admission
import RuntimeRanges.Version.Reduction

/-!
Parts as ends of limits. With the wildcard behind all numbers in an upper end and before all of them in a lower one, a
limit admits the triples on its side of its parts.
-/

namespace RuntimeRanges

open Std (OrientedCmp TransCmp TransOrd)

variable {comps : List Component} {ns : List Nat} {p q : Parts} {a b c : Nat}

namespace Side

theorem compareComponents_swap (side : Side) (comp comp' : Component) :
    side.compareComponents comp comp' = (side.compareComponents comp' comp).swap := by
  cases comp with
  | number m =>
    cases comp' with
    | number n => exact Std.OrientedOrd.eq_swap
    | wildcard => cases side <;> rfl
  | wildcard =>
    cases comp' with
    | number n => cases side <;> rfl
    | wildcard => rfl

instance (side : Side) : TransCmp side.compareComponents where
  eq_swap := side.compareComponents_swap _ _
  isLE_trans {x y z} hxy hyz := by
    cases side <;> cases x <;> cases y <;> cases z <;>
      first | exact TransOrd.isLE_trans hxy hyz | contradiction | rfl

theorem compareParts_eq_compareLex (side : Side) (p q : Parts) :
    side.compareParts p q = List.compareLex side.compareComponents p.components q.components := by
  simp [compareParts, Parts.components, List.compareLex_cons_cons, List.compareLex_nil_nil]

instance (side : Side) : TransCmp side.compareParts := by
  have hp : side.compareParts = fun p q => List.compareLex side.compareComponents p.components q.components :=
    funext fun p => funext fun q => side.compareParts_eq_compareLex p q
  rw [hp]
  exact transCmp_on Parts.components

/-- Nothing behind the first wildcard of an upper end is looked at, because the wildcard is larger than any number. -/
theorem take_le_leadingNumbers_iff (hlen : ns.length = comps.length) :
    ns.take (leadingNumbers comps).length ≤ leadingNumbers comps ↔
      (List.compareLex atMost.compareComponents (ns.map .number) comps).isLE = true := by
  induction comps generalizing ns with
  | nil =>
    obtain rfl := List.eq_nil_of_length_eq_zero hlen
    exact iff_of_true (nil_le_numbers []) rfl
  | cons comp comps ih =>
    obtain ⟨x, ns, rfl⟩ := List.exists_cons_of_length_eq_add_one hlen
    rw [List.map_cons, List.compareLex_cons_cons, Ordering.isLE_then_iff_or]
    cases comp with
    | wildcard => exact iff_of_true (nil_le_numbers _) (.inl rfl)
    | number n =>
      rw [leadingNumbers, List.length_cons, List.take_succ_cons, numbers_le_numbers_iff, ih (Nat.succ.inj hlen)]
      exact or_congr Nat.compare_eq_lt.symm (and_congr_left' Nat.compare_eq_eq.symm)

theorem leadingNumbers_le_take_iff (hlen : ns.length = comps.length) :
    leadingNumbers comps ≤ ns.take (leadingNumbers comps).length ↔
      (List.compareLex atLeast.compareComponents comps (ns.map .number)).isLE = true := by
  induction comps generalizing ns with
  | nil =>
    obtain rfl := List.eq_nil_of_length_eq_zero hlen
    exact iff_of_true (nil_le_numbers []) rfl
  | cons comp comps ih =>
    obtain ⟨x, ns, rfl⟩ := List.exists_cons_of_length_eq_add_one hlen
    rw [List.map_cons, List.compareLex_cons_cons, Ordering.isLE_then_iff_or]
    cases comp with
    | wildcard => exact iff_of_true (nil_le_numbers _) (.inl rfl)
    | number n =>
      rw [leadingNumbers, List.length_cons, List.take_succ_cons, numbers_le_numbers_iff, ih (Nat.succ.inj hlen)]
      exact or_congr Nat.compare_eq_lt.symm (and_congr_left' Nat.compare_eq_eq.symm)

end Side

namespace Parts

theorem admits_atMost_iff :
    p.Admits (some .atMost) [a, b, c] ↔ (Side.atMost.compareParts (ofNumbers a b c) p).isLE = true := by
  rw [Side.compareParts_eq_compareLex]
  exact Side.take_le_leadingNumbers_iff rfl

theorem admits_atLeast_iff :
    p.Admits (some .atLeast) [a, b, c] ↔ (Side.atLeast.compareParts p (ofNumbers a b c)).isLE = true := by
  rw [Side.compareParts_eq_compareLex]
  exact Side.leadingNumbers_le_take_iff rfl

theorem Admits.atMost_of_isLE (hp : p.Admits (some .atMost) [a, b, c])
    (h : (Side.atMost.compareParts p q).isLE = true) : q.Admits (some .atMost) [a, b, c] :=
  admits_atMost_iff.2 (TransCmp.isLE_trans (admits_atMost_iff.1 hp) h)

theorem Admits.atLeast_of_isLE (hq : q.Admits (some .atLeast) [a, b, c])
    (h : (Side.atLeast.compareParts p q).isLE = true) : p.Admits (some .atLeast) [a, b, c] :=
  admits_atLeast_iff.2 (TransCmp.isLE_trans h (admits_atLeast_iff.1 hq))

end Parts

end RuntimeRanges
