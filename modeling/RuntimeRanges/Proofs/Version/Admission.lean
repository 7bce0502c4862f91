import RuntimeRanges.Version
import RuntimeRanges.Proofs.Lexicographic

/-!
What a version admits, said of triples of numbers and without texts and intervals: a triple is cut to the length
of the leading numbers of the parts and compared with them.
-/

namespace RuntimeRanges

def leadingNumbers : List Component → List Nat
  | .number n :: comps => n :: leadingNumbers comps
  | _ => []

def Parts.components (p : Parts) : List Component :=
  [p.major, p.minor, p.patch]

def Parts.leading (p : Parts) : List Nat :=
  leadingNumbers p.components

/-- Whether the parts admit a triple: without a side it begins with the leading numbers, otherwise its beginning
lies on that side of them in lexicographic order. -/
def Parts.Admits (p : Parts) (side? : Option Side) (t : List Nat) : Prop :=
  match side? with
  | none => t.take p.leading.length = p.leading
  | some .atLeast => p.leading ≤ t.take p.leading.length
  | some .atMost => t.take p.leading.length ≤ p.leading

instance (p : Parts) (side? : Option Side) (t : List Nat) : Decidable (p.Admits side? t) :=
  match side? with
  | none => inferInstanceAs (Decidable (_ = _))
  | some .atLeast => inferInstanceAs (Decidable (_ ≤ _))
  | some .atMost => inferInstanceAs (Decidable (_ ≤ _))

theorem Parts.admits_none_iff {p : Parts} {t : List Nat} :
    p.Admits none t ↔ p.Admits (some .atLeast) t ∧ p.Admits (some .atMost) t := by
  constructor
  · intro h
    change t.take p.leading.length = p.leading at h
    rw [Parts.Admits, Parts.Admits, h]
    exact ⟨le_rfl, le_rfl⟩
  · rintro ⟨hl, hu⟩
    exact le_antisymm hu hl

def Limit.Admits (l : Limit) (t : List Nat) : Prop :=
  l.parts.Admits l.side t

instance (l : Limit) (t : List Nat) : Decidable (l.Admits t) :=
  inferInstanceAs (Decidable (Parts.Admits ..))

/-- Whether a version admits a triple. Both limits of a pair have to where the first of them is a lower one;
otherwise one of them is enough. -/
def Version.Admits (v : Version) (t : List Nat) : Prop :=
  match v with
  | exact p => p.Admits none t
  | limit l => l.Admits t
  | pair ⟨.atLeast, p⟩ u => Limit.Admits ⟨.atLeast, p⟩ t ∧ u.Admits t
  | pair ⟨.atMost, p⟩ u => Limit.Admits ⟨.atMost, p⟩ t ∨ u.Admits t

instance (v : Version) (t : List Nat) : Decidable (v.Admits t) :=
  match v with
  | .exact p => inferInstanceAs (Decidable (p.Admits none t))
  | .limit l => inferInstanceAs (Decidable (l.Admits t))
  | .pair ⟨.atLeast, p⟩ u => inferInstanceAs (Decidable (Limit.Admits ⟨.atLeast, p⟩ t ∧ u.Admits t))
  | .pair ⟨.atMost, p⟩ u => inferInstanceAs (Decidable (Limit.Admits ⟨.atMost, p⟩ t ∨ u.Admits t))

example : (Version.pair ⟨.atLeast, ⟨.number 1, .number 2, .wildcard⟩⟩
    ⟨.atMost, ⟨.number 1, .wildcard, .number 3⟩⟩).Admits [1, 9, 9] := by decide

end RuntimeRanges
