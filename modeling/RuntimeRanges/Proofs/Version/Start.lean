import RuntimeRanges.Proofs.Version.Pattern
import RuntimeRanges.Proofs.Version.Reduction
import RuntimeRanges.Proofs.Version.Intersection

/-!
Where versions start: the least triple that their first limit admits. Of two versions that both match a triple as
patterns, the later start decides whether they overlap.
-/

namespace RuntimeRanges

variable {l s t : List Nat}

theorem take_leadingNumbers {comps : List Component} {ns : List Nat} (hlen : comps.length ≤ ns.length)
    (h : ∀ x ∈ comps.zip ns, x.1 = .number x.2 ∨ x.1 = .wildcard) :
    ns.take (leadingNumbers comps).length = leadingNumbers comps := by
  induction comps generalizing ns with
  | nil => rfl
  | cons comp comps ih =>
    cases comp with
    | wildcard => rfl
    | number n =>
      cases ns with
      | nil => simp at hlen
      | cons m ns =>
        obtain hnm | hw := h (.number n, m) List.mem_cons_self
        · obtain rfl : n = m := Component.number.inj hnm
          have ih' := ih (by simpa using hlen) fun x hx => h x (List.mem_cons_of_mem _ hx)
          rw [leadingNumbers, List.length_cons, List.take_succ_cons, ih']
        · cases hw

namespace Parts

variable {p : Parts}

theorem length_leading_le (p : Parts) : p.leading.length ≤ 3 := by
  obtain ⟨major, minor, patch⟩ := p
  cases major <;> cases minor <;> cases patch <;> simp [leading, leadingNumbers, components]

def start (p : Parts) : List Nat :=
  p.leading ++ List.replicate (3 - p.leading.length) 0

theorem length_start (p : Parts) : p.start.length = 3 := by
  have hl := length_leading_le p
  rw [start, List.length_append, List.length_replicate]
  omega

theorem start_le_iff (ht : t.length = 3) : p.start ≤ t ↔ p.Admits (some .atLeast) t := by
  have hl := length_leading_le p
  exact append_zeros_le_iff (by omega)

theorem Admits.of_le (h : p.Admits (some .atMost) t) (hst : s ≤ t) : p.Admits (some .atMost) s :=
  le_trans (take_le_take hst _) h

end Parts

namespace Version

variable {v w : Version}

/-- The least triple that the first limit of a version admits. -/
def start (v : Version) : List Nat :=
  match v.side? with
  | some .atMost => List.replicate 3 0
  | _ => v.parts.start

/-- Whether the second bound of a version that demands both of its limits admits a triple. -/
def Reaches (v : Version) (t : List Nat) : Prop :=
  match v with
  | pair ⟨.atLeast, _⟩ u => u.Admits t
  | _ => True

instance (v : Version) (t : List Nat) : Decidable (v.Reaches t) :=
  match v with
  | .pair ⟨.atLeast, _⟩ u => inferInstanceAs (Decidable (u.Admits t))
  | .pair ⟨.atMost, _⟩ _ | .exact _ | .limit _ => inferInstanceAs (Decidable True)

theorem Matches.admits {a b c : Nat} (h : v.Matches (.ofNumbers a b c)) : v.parts.Admits none [a, b, c] := by
  rcases h with h | h
  · obtain ⟨⟨major, minor, patch⟩, hp⟩ : ∃ p, v.parts = p := ⟨_, rfl⟩
    rw [hp] at h ⊢
    cases major with
    | wildcard => rfl
    | number n => cases h
  · apply take_leadingNumbers
    · exact Nat.le_refl 3
    · intro x hx
      exact (h x hx).imp_right And.left

theorem start_le_of_admits (ht : t.length = 3) (h : v.Admits t) : v.start ≤ t := by
  have hzero : List.replicate 3 0 ≤ t := ht ▸ zeros_le t
  cases v with
  | exact p => exact (Parts.start_le_iff ht).2 (Parts.admits_none_iff.1 h).1
  | limit l =>
    obtain ⟨side, p⟩ := l
    cases side with
    | atLeast => exact (Parts.start_le_iff ht).2 h
    | atMost => exact hzero
  | pair l u =>
    obtain ⟨side, p⟩ := l
    cases side with
    | atLeast => exact (Parts.start_le_iff ht).2 h.1
    | atMost => exact hzero

theorem start_le_of_parts (ht : t.length = 3) (h : v.parts.Admits none t) : v.start ≤ t := by
  have hlower : v.parts.start ≤ t := (Parts.start_le_iff ht).2 (Parts.admits_none_iff.1 h).1
  rw [start]
  split
  · exact ht ▸ zeros_le t
  · exact hlower

/-- Between its start and a triple that its parts begin, only a second bound keeps a version from admitting. -/
theorem admits_iff_reaches (hs : s.length = 3) (h : v.parts.Admits none t) (hst : s ≤ t) (hv : v.start ≤ s) :
    v.Admits s ↔ v.Reaches s := by
  have hmost : v.parts.Admits (some .atMost) s := (Parts.admits_none_iff.1 h).2.of_le hst
  cases v with
  | exact p => exact iff_of_true (Parts.admits_none_iff.2 ⟨(Parts.start_le_iff hs).1 hv, hmost⟩) trivial
  | limit l =>
    obtain ⟨side, p⟩ := l
    cases side with
    | atLeast => exact iff_of_true ((Parts.start_le_iff hs).1 hv) trivial
    | atMost => exact iff_of_true hmost trivial
  | pair l u =>
    obtain ⟨side, p⟩ := l
    cases side with
    | atLeast => exact and_iff_right ((Parts.start_le_iff hs).1 hv)
    | atMost => exact iff_of_true (.inl hmost) trivial

theorem reaches_of_admits_simplify (h : v.simplify.Admits t) (hst : s ≤ t) : v.simplify.Reaches s := by
  obtain ⟨w, hw⟩ : ∃ w, v.simplify = w := ⟨_, rfl⟩
  have hsides : ∀ l u, w = pair l u → l.side ≠ u.side := fun l u h => sides_ne_of_simplify (hw.trans h)
  rw [hw] at h ⊢
  cases w with
  | exact p => trivial
  | limit l => trivial
  | pair l u =>
    obtain ⟨side, p⟩ := l
    obtain ⟨side', q⟩ := u
    have hne := hsides _ _ rfl
    cases side with
    | atMost => trivial
    | atLeast =>
      cases side' with
      | atLeast => exact absurd rfl hne
      | atMost => exact Parts.Admits.of_le h.2 hst

/-- The later one of two starts. -/
def sharedStart (v w : Version) : List Nat :=
  if v.start ≤ w.start then w.start else v.start

theorem start_le_sharedStart_left (v w : Version) : v.start ≤ v.sharedStart w := by
  rw [sharedStart]
  split
  · assumption
  · exact le_rfl

theorem start_le_sharedStart_right (v w : Version) : w.start ≤ v.sharedStart w := by
  rw [sharedStart]
  split
  · exact le_rfl
  · exact le_of_not_ge ‹_›

theorem sharedStart_le (hv : v.start ≤ t) (hw : w.start ≤ t) : v.sharedStart w ≤ t := by
  rw [sharedStart]
  split
  · exact hw
  · exact hv

theorem length_start (v : Version) : v.start.length = 3 := by
  rw [start]
  split
  · rfl
  · exact Parts.length_start _

theorem length_sharedStart (v w : Version) : (v.sharedStart w).length = 3 := by
  rw [sharedStart]
  split <;> exact length_start _

/-- Two versions that match the same triple as patterns overlap unless a second bound ends before the later of their
starts. -/
theorem overlaps_iff_reaches {a b c : Nat} (hv : v.Short) (hw : w.Short)
    (hmv : v.simplify.Matches (.ofNumbers a b c)) (hmw : w.simplify.Matches (.ofNumbers a b c)) :
    v.Overlaps w ↔ v.simplify.Reaches (v.simplify.sharedStart w.simplify) ∧
      w.simplify.Reaches (v.simplify.sharedStart w.simplify) := by
  have hpv := hmv.admits
  have hpw := hmw.admits
  have hle := sharedStart_le (start_le_of_parts rfl hpv) (start_le_of_parts rfl hpw)
  have hlen := length_sharedStart v.simplify w.simplify
  have hv' := admits_iff_reaches hlen hpv hle (start_le_sharedStart_left _ _)
  have hw' := admits_iff_reaches hlen hpw hle (start_le_sharedStart_right _ _)
  rw [overlaps_iff_admits hv hw]
  constructor
  · rintro ⟨x, y, z, hxv, hxw⟩
    have hst := sharedStart_le (start_le_of_admits rfl hxv) (start_le_of_admits rfl hxw)
    exact ⟨reaches_of_admits_simplify hxv hst, reaches_of_admits_simplify hxw hst⟩
  · rintro ⟨hrv, hrw⟩
    obtain ⟨x, y, z, hxyz⟩ : ∃ x y z, v.simplify.sharedStart w.simplify = [x, y, z] :=
      ⟨_, _, _, List.eq_getElem_of_length_eq_three _ hlen⟩
    rw [hxyz] at hv' hw' hrv hrw
    exact ⟨x, y, z, hv'.2 hrv, hw'.2 hrw⟩

end Version

end RuntimeRanges
