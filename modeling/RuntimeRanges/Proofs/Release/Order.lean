import RuntimeRanges.Release

/-!
The order of releases is a total preorder: `Release.compare` is oriented and transitive. Releases of three
numbers are ordered as the triples of these numbers are.
-/

namespace RuntimeRanges

open Std (OrientedCmp TransCmp TransOrd)

theorem transCmp_on {α β : Type} {cmp : β → β → Ordering} [TransCmp cmp] (f : α → β) :
    TransCmp fun a b => cmp (f a) (f b) where
  eq_swap := OrientedCmp.eq_swap
  isLE_trans := TransCmp.isLE_trans

namespace LocalPart

theorem compare_swap (p q : LocalPart) : p.compare q = (q.compare p).swap := by
  cases p with
  | text s =>
    cases q with
    | text t => exact Std.OrientedOrd.eq_swap
    | number n => rfl
  | number m =>
    cases q with
    | text t => rfl
    | number n => exact Std.OrientedOrd.eq_swap

instance : TransCmp LocalPart.compare where
  eq_swap := compare_swap _ _
  isLE_trans {p q r} hpq hqr := by
    cases p <;> cases q <;> cases r <;> first | exact TransOrd.isLE_trans hpq hqr | contradiction | rfl

end LocalPart

namespace Release

instance : TransCmp comparePair :=
  inferInstanceAs (TransCmp (compareLex (compareOn Prod.fst) (compareOn Prod.snd)))

theorem compareLocal_eq_compareLex (ps qs : List LocalPart) :
    compareLocal ps qs = List.compareLex LocalPart.compare ps qs := by
  induction ps generalizing qs with
  | nil => cases qs <;> rfl
  | cons p ps ih =>
    cases qs with
    | nil => rfl
    | cons q qs => rw [compareLocal, List.compareLex_cons_cons, ih]

instance : TransCmp compareLocal := by
  have he : compareLocal = List.compareLex LocalPart.compare :=
    funext fun ps => funext fun qs => compareLocal_eq_compareLex ps qs
  rw [he]
  infer_instance

/-- The first `k` numbers, with zeros for those that are missing. -/
def padded : Nat → List Nat → List Nat
  | 0, _ => []
  | k + 1, ns => ns.headD 0 :: padded k ns.tail

theorem compareNumbers_eq_then (ms ns : List Nat) :
    compareNumbers ms ns = (Ord.compare (ms.headD 0) (ns.headD 0)).then (compareNumbers ms.tail ns.tail) := by
  cases ms <;> cases ns <;> simp [compareNumbers]

/-- Numbers are compared as lists of one length, once enough zeros are put behind them. -/
theorem compareNumbers_eq_padded {k : Nat} {ms ns : List Nat} (hm : ms.length ≤ k) (hn : ns.length ≤ k) :
    compareNumbers ms ns = List.compareLex Ord.compare (padded k ms) (padded k ns) := by
  induction k generalizing ms ns with
  | zero =>
    obtain rfl := List.eq_nil_of_length_eq_zero (Nat.le_zero.1 hm)
    obtain rfl := List.eq_nil_of_length_eq_zero (Nat.le_zero.1 hn)
    rw [compareNumbers, padded, List.compareLex_nil_nil]
  | succ k ih =>
    have hm' : ms.tail.length ≤ k := by rw [List.length_tail]; omega
    have hn' : ns.tail.length ≤ k := by rw [List.length_tail]; omega
    rw [compareNumbers_eq_then, ih hm' hn', padded, padded, List.compareLex_cons_cons]

/-- A comparison of numbers that can be computed by unfolding. -/
theorem compareNumbers_eq_compareLex (ms ns : List Nat) :
    compareNumbers ms ns = List.compareLex Ord.compare (padded (max ms.length ns.length) ms)
      (padded (max ms.length ns.length) ns) :=
  compareNumbers_eq_padded (Nat.le_max_left ..) (Nat.le_max_right ..)

instance : TransCmp compareNumbers where
  eq_swap {ms ns} := by
    have hm : ms.length ≤ max ms.length ns.length := Nat.le_max_left ..
    have hn : ns.length ≤ max ms.length ns.length := Nat.le_max_right ..
    rw [compareNumbers_eq_padded hm hn, compareNumbers_eq_padded hn hm]
    exact OrientedCmp.eq_swap
  isLE_trans {ms ns ps} h₁ h₂ := by
    let k := ms.length + ns.length + ps.length
    have hm : ms.length ≤ k := by omega
    have hn : ns.length ≤ k := by omega
    have hp : ps.length ≤ k := by omega
    rw [compareNumbers_eq_padded hm hn] at h₁
    rw [compareNumbers_eq_padded hn hp] at h₂
    rw [compareNumbers_eq_padded hm hp]
    exact TransCmp.isLE_trans h₁ h₂

/-- The order of releases is a total preorder; releases can be equal in it and yet differ. -/
instance : TransCmp compare := by
  have : TransCmp fun r s : Release => compareNumbers r.numbers s.numbers := transCmp_on numbers
  have : TransCmp fun r s : Release => comparePair r.preRank s.preRank := transCmp_on preRank
  have : TransCmp fun r s : Release => comparePair r.devRank s.devRank := transCmp_on devRank
  have : TransCmp fun r s : Release => compareLocal r.localParts s.localParts := transCmp_on localParts
  exact inferInstanceAs <| TransCmp <|
    compareLex (compareOn epoch) <|
      compareLex (fun r s => compareNumbers r.numbers s.numbers) <|
        compareLex (fun r s => comparePair r.preRank s.preRank) <|
          compareLex (compareOn postRank) <|
            compareLex (fun r s => comparePair r.devRank s.devRank) fun r s =>
              compareLocal r.localParts s.localParts

theorem compare_ofNumbers_eq_lt_iff {a b c a' b' c' : Nat} :
    compare (ofNumbers a b c) (ofNumbers a' b' c') = .lt ↔
      a < a' ∨ a = a' ∧ (b < b' ∨ b = b' ∧ c < c') := by
  simp only [compare_ofNumbers, Ordering.then_eq_lt, Nat.compare_eq_lt, Nat.compare_eq_eq]

theorem compare_ofNumbers_eq_eq_iff {a b c a' b' c' : Nat} :
    compare (ofNumbers a b c) (ofNumbers a' b' c') = .eq ↔ a = a' ∧ b = b' ∧ c = c' := by
  simp only [compare_ofNumbers, Ordering.then_eq_eq, Nat.compare_eq_eq]

end Release

end RuntimeRanges
