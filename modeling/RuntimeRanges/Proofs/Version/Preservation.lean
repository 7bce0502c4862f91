import Mathlib.Data.Set.Lattice
import Mathlib.Order.CompletePartialOrder
import RuntimeRanges.Proofs.Version.Ends
import RuntimeRanges.Proofs.Version.Triples

/-!
What reduction does to the triples that a version admits. It keeps them except for limits on opposite sides of the same
parts, which are replaced by the versions of one major number.
-/

namespace RuntimeRanges

theorem Numeral.exists_short_ne (n : Nat) : ∃ k, Short k ∧ k ≠ n := by
  by_cases h : n = 0
  · exact ⟨1, short_of_lt_ten (by decide), by omega⟩
  · exact ⟨0, short_zero, Ne.symm h⟩

theorem Parts.Short.of_major {p : Parts} {m : Nat} (hp : p.Short) (hm : p.major = .number m) : Numeral.Short m := by
  have hmajor := hp.1
  rwa [hm] at hmajor

namespace Version

variable {v : Version} {p q : Parts} {side other : Side} {a b c m : Nat} {t : List Nat}

/-- Of two limits on one side the one with the larger parts decides alone. -/
theorem admits_pair_iff_second (h : (side.compareParts p q).isLE = true) :
    (pair ⟨side, p⟩ ⟨side, q⟩).Admits [a, b, c] ↔ (limit ⟨side, q⟩).Admits [a, b, c] := by
  cases side with
  | atLeast => exact and_iff_right_of_imp fun hq => hq.atLeast_of_isLE h
  | atMost => exact or_iff_right_of_imp fun hp => hp.atMost_of_isLE h

theorem admits_pair_comm (p q : Parts) : (pair ⟨side, p⟩ ⟨side, q⟩).Admits t ↔ (pair ⟨side, q⟩ ⟨side, p⟩).Admits t := by
  cases side with
  | atLeast => exact and_comm
  | atMost => exact or_comm

theorem admits_pair_iff_first (h : side.compareParts p q = .gt) :
    (pair ⟨side, p⟩ ⟨side, q⟩).Admits [a, b, c] ↔ (limit ⟨side, p⟩).Admits [a, b, c] := by
  have hlt : side.compareParts q p = .lt := Std.OrientedCmp.lt_of_gt h
  rw [admits_pair_comm]
  apply admits_pair_iff_second
  rw [hlt]
  rfl

theorem admits_pair_atLeast_atMost : (pair ⟨.atLeast, p⟩ ⟨.atMost, p⟩).Admits t ↔ (exact p).Admits t :=
  Parts.admits_none_iff.symm

theorem admits_pair_atMost_atLeast (p : Parts) (t : List Nat) : (pair ⟨.atMost, p⟩ ⟨.atLeast, p⟩).Admits t :=
  le_total (t.take p.leading.length) p.leading

/-- Limits on opposite sides of the same parts whose reduction loses what they mean: the major number is given, and
either of the limits is enough or the minor number is given as well. -/
def Pinched : Version → Prop
  | pair l u => l.side ≠ u.side ∧ l.parts = u.parts ∧ l.parts.major ≠ .wildcard ∧
      (l.side = .atMost ∨ l.parts.minor ≠ .wildcard)
  | _ => False

instance (v : Version) : Decidable v.Pinched :=
  match v with
  | pair _ _ => inferInstanceAs (Decidable (_ ∧ _))
  | exact _ | limit _ => inferInstanceAs (Decidable False)

theorem Pinched.exists_eq (h : v.Pinched) :
    ∃ p m, p.major = .number m ∧ v.simplify = exact ⟨.number m, .wildcard, .wildcard⟩ ∧
      (v = pair ⟨.atLeast, p⟩ ⟨.atMost, p⟩ ∧ p.minor ≠ .wildcard ∨ v = pair ⟨.atMost, p⟩ ⟨.atLeast, p⟩) := by
  cases v with
  | exact p => cases h
  | limit l => cases h
  | pair l u =>
    obtain ⟨side, p⟩ := l
    obtain ⟨other, q⟩ := u
    obtain ⟨hside, hparts, hmajor, hminor⟩ := h
    obtain rfl : p = q := hparts
    obtain ⟨m, hm⟩ : ∃ m, p.major = .number m := by
      cases hp : p.major with
      | number m => exact ⟨m, rfl⟩
      | wildcard => exact absurd hp hmajor
    have hs : (pair ⟨side, p⟩ ⟨other, p⟩).simplify = exact ⟨.number m, .wildcard, .wildcard⟩ := by
      have hne : (⟨side, p⟩ : Limit) ≠ ⟨other, p⟩ := fun he => hside (congrArg Limit.side he)
      rw [simplify, reduction?, if_neg hne, if_pos hside, if_pos rfl, ← hm]
      rfl
    refine ⟨p, m, hm, hs, ?_⟩
    cases side with
    | atLeast =>
      cases other with
      | atLeast => exact absurd rfl hside
      | atMost =>
        obtain hminor | hminor := hminor
        · cases hminor
        · exact .inl ⟨rfl, hminor⟩
    | atMost =>
      cases other with
      | atLeast => exact .inr rfl
      | atMost => exact absurd rfl hside

theorem admits_major_iff (m : Nat) : (exact ⟨.number m, .wildcard, .wildcard⟩).Admits [a, b, c] ↔ a = m := by
  change [a] = [m] ↔ a = m
  rw [List.cons.injEq]
  exact and_iff_left rfl

theorem admits_exact_of_minor (h : p.major = .wildcard ∨ p.minor = .wildcard) :
    (exact ⟨p.major, .wildcard, .wildcard⟩).Admits t ↔ (exact p).Admits t := by
  obtain ⟨major, minor, patch⟩ := p
  cases major with
  | wildcard => rfl
  | number m =>
    obtain h | h := h
    · cases h
    · obtain rfl : minor = .wildcard := h
      rfl

theorem admits_opposite_iff (hside : side ≠ other) (h : ¬(pair ⟨side, p⟩ ⟨other, p⟩).Pinched) :
    (exact ⟨p.major, .wildcard, .wildcard⟩).Admits t ↔ (pair ⟨side, p⟩ ⟨other, p⟩).Admits t := by
  cases side with
  | atLeast =>
    cases other with
    | atLeast => exact absurd rfl hside
    | atMost =>
      rw [admits_pair_atLeast_atMost]
      apply admits_exact_of_minor
      by_contra hgiven
      rw [not_or] at hgiven
      exact h ⟨hside, rfl, hgiven.1, .inr hgiven.2⟩
  | atMost =>
    cases other with
    | atLeast =>
      have hmajor : p.major = .wildcard := by
        by_contra hgiven
        exact h ⟨hside, rfl, hgiven, .inl rfl⟩
      rw [hmajor]
      exact iff_of_true rfl (admits_pair_atMost_atLeast p t)
    | atMost => exact absurd rfl hside

/-- A version that is not pinched admits the same triples once it is reduced. -/
theorem admits_simplify_iff (h : ¬v.Pinched) : v.simplify.Admits [a, b, c] ↔ v.Admits [a, b, c] := by
  cases v with
  | exact p => rfl
  | limit l => rfl
  | pair l u =>
    obtain ⟨side, p⟩ := l
    obtain ⟨other, q⟩ := u
    rw [simplify]
    cases hr : reduction? (pair ⟨side, p⟩ ⟨other, q⟩) with
    | none => rfl
    | some w =>
      rw [Option.getD_some]
      obtain ⟨heq, rfl⟩ | ⟨hside, hparts, rfl⟩ | ⟨hside, hlt, rfl⟩ | ⟨hside, hgt, rfl⟩ := reduction?_pair_cases hr
      · cases heq
        have hself : side.compareParts p p = .eq := Std.ReflCmp.compare_self
        apply (admits_pair_iff_second _).symm
        rw [hself]
        rfl
      · cases hparts
        exact admits_opposite_iff hside h
      · cases hside
        apply (admits_pair_iff_second _).symm
        rw [hlt]
        rfl
      · cases hside
        exact (admits_pair_iff_first hgt).symm

theorem triples_exact_major (hm : Numeral.Short m) :
    (exact ⟨.number m, .wildcard, .wildcard⟩).triples = {t | t.1 = m ∧ WritableTriple t} := by
  have hshort : (exact ⟨.number m, .wildcard, .wildcard⟩).Short := ⟨hm, trivial, trivial⟩
  ext ⟨a, b, c⟩
  rw [mem_triples_iff hshort, admits_major_iff]
  exact and_comm

theorem triples_ssubset_of_atLeast (hv : (pair ⟨.atLeast, p⟩ ⟨.atMost, p⟩).Short) (hm : p.major = .number m)
    (hminor : p.minor ≠ .wildcard) :
    (pair ⟨.atLeast, p⟩ ⟨.atMost, p⟩).triples ⊂ (exact ⟨.number m, .wildcard, .wildcard⟩).triples := by
  obtain ⟨major, minor, patch⟩ := p
  obtain rfl : major = .number m := hm
  have hshort : Numeral.Short m := hv.1.1
  cases minor with
  | wildcard => exact absurd rfl hminor
  | number n =>
    rw [triples_exact_major hshort]
    constructor
    · rintro ⟨a, b, c⟩ ht
      rw [mem_triples_iff hv, admits_pair_atLeast_atMost] at ht
      have ha := congrArg List.head? ht.2
      exact ⟨Option.some.inj ha, ht.1⟩
    · obtain ⟨k, hk, hne⟩ := Numeral.exists_short_ne n
      intro hsub
      have hmem := hsub (show (m, k, 0) ∈ _ from ⟨rfl, hshort.lt, hk.lt, Numeral.short_zero.lt⟩)
      rw [mem_triples_iff hv, admits_pair_atLeast_atMost] at hmem
      have hsecond := congrArg (·[1]?) hmem.2
      exact hne (Option.some.inj hsecond)

theorem triples_ssubset_of_atMost (hv : (pair ⟨.atMost, p⟩ ⟨.atLeast, p⟩).Short) (hm : p.major = .number m) :
    (exact ⟨.number m, .wildcard, .wildcard⟩).triples ⊂ (pair ⟨.atMost, p⟩ ⟨.atLeast, p⟩).triples := by
  rw [triples_exact_major (hv.1.of_major hm)]
  constructor
  · rintro ⟨a, b, c⟩ ht
    rw [mem_triples_iff hv]
    exact ⟨ht.2, admits_pair_atMost_atLeast p _⟩
  · obtain ⟨k, hk, hne⟩ := Numeral.exists_short_ne m
    have hmem : (k, 0, 0) ∈ (pair ⟨.atMost, p⟩ ⟨.atLeast, p⟩).triples := by
      rw [mem_triples_iff hv]
      exact ⟨⟨hk.lt, Numeral.short_zero.lt, Numeral.short_zero.lt⟩, admits_pair_atMost_atLeast p _⟩
    intro hsub
    exact hne (hsub hmem).1

/-- A pinched version is reduced to the triples of its major number: more than it admitted if it demanded both limits,
and fewer if one of them was enough. -/
theorem Pinched.triples_simplify (h : v.Pinched) (hv : v.Short) :
    ∃ m, v.parts.major = .number m ∧ v.simplify.triples = {t | t.1 = m ∧ WritableTriple t} ∧
      (v.side? = some .atLeast → v.triples ⊂ v.simplify.triples) ∧
      (v.side? = some .atMost → v.simplify.triples ⊂ v.triples) := by
  obtain ⟨p, m, hm, hs, ⟨rfl, hminor⟩ | rfl⟩ := h.exists_eq
  · rw [hs]
    refine ⟨m, hm, triples_exact_major (hv.1.of_major hm), ?_, ?_⟩
    · intro _
      exact triples_ssubset_of_atLeast hv hm hminor
    · intro hside
      cases hside
  · rw [hs]
    refine ⟨m, hm, triples_exact_major (hv.1.of_major hm), ?_, ?_⟩
    · intro hside
      cases hside
    · intro _
      exact triples_ssubset_of_atMost hv hm

/-- Reduction keeps what every triple makes of the range of a version, unless the version is pinched. -/
theorem satisfies_simplify_eq_iff (hv : v.Short) :
    ((∀ a b c, Range.satisfies (tripleText a b c) v.simplify.rangeText =
        Range.satisfies (tripleText a b c) v.rangeText) ↔ ¬v.Pinched) ∧
      (v.Pinched → ∃ m, v.parts.major = .number m ∧ v.simplify.triples = {t | t.1 = m ∧ WritableTriple t} ∧
        (v.side? = some .atLeast → v.triples ⊂ v.simplify.triples) ∧
        (v.side? = some .atMost → v.simplify.triples ⊂ v.triples)) := by
  refine ⟨⟨?_, ?_⟩, fun h => h.triples_simplify hv⟩
  · intro hsame h
    have htriples : v.simplify.triples = v.triples := by
      ext ⟨a, b, c⟩
      exact Eq.congr_left (hsame a b c)
    obtain ⟨m, -, -, hmore, hfewer⟩ := h.triples_simplify hv
    obtain ⟨p, -, -, -, ⟨rfl, -⟩ | rfl⟩ := h.exists_eq
    · exact (hmore rfl).ne htriples.symm
    · exact (hfewer rfl).ne htriples
  · intro h a b c
    rw [satisfies_rangeText_eq_map hv.simplify, satisfies_rangeText_eq_map hv]
    congr 1
    funext _
    rw [decide_eq_decide]
    exact admits_simplify_iff h

/-- `<=v1.x.3_<=v1.2.5` is kept and `>=v1.2.3_<=v1.2.3` is widened. -/
theorem satisfies_simplify_eq_iff_two :
    (∀ a b c, Range.satisfies (tripleText a b c)
        (pair ⟨.atMost, ⟨.number 1, .wildcard, .number 3⟩⟩ ⟨.atMost, .ofNumbers 1 2 5⟩).simplify.rangeText =
      Range.satisfies (tripleText a b c)
        (pair ⟨.atMost, ⟨.number 1, .wildcard, .number 3⟩⟩ ⟨.atMost, .ofNumbers 1 2 5⟩).rangeText) ∧
      (pair ⟨.atLeast, .ofNumbers 1 2 3⟩ ⟨.atMost, .ofNumbers 1 2 3⟩).triples ⊂
        (pair ⟨.atLeast, .ofNumbers 1 2 3⟩ ⟨.atMost, .ofNumbers 1 2 3⟩).simplify.triples := by
  constructor
  · exact (satisfies_simplify_eq_iff (by decide +kernel)).1.2 (by decide)
  · have hshort : (pair ⟨.atLeast, .ofNumbers 1 2 3⟩ ⟨.atMost, .ofNumbers 1 2 3⟩).Short := by decide +kernel
    obtain ⟨m, -, -, hwider, -⟩ := (satisfies_simplify_eq_iff hshort).2 (by decide)
    exact hwider rfl

end Version

end RuntimeRanges
