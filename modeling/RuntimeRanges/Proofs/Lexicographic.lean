import Mathlib.Data.List.Lex

/-!
Lists of numbers in lexicographic order, in which a list comes before all that it begins.
-/

namespace RuntimeRanges

variable {l s t : List Nat}

@[simp]
theorem nil_le_numbers (t : List Nat) : [] ≤ t := by
  cases t with
  | nil => exact le_rfl
  | cons b t => exact le_of_lt (List.nil_lt_cons b t)

@[simp]
theorem not_numbers_le_nil (a : Nat) (s : List Nat) : ¬a :: s ≤ [] :=
  not_le_of_gt (List.nil_lt_cons a s)

@[simp]
theorem numbers_le_numbers_iff {a b : Nat} : a :: s ≤ b :: t ↔ a < b ∨ a = b ∧ s ≤ t := by
  rw [le_iff_lt_or_eq, le_iff_lt_or_eq, List.cons_lt_cons_iff, List.cons.injEq, or_assoc, ← and_or_left]

theorem zeros_le (t : List Nat) : List.replicate t.length 0 ≤ t := by
  induction t with
  | nil => exact le_rfl
  | cons a t ih =>
    rw [List.length_cons, List.replicate_succ, numbers_le_numbers_iff]
    rcases Nat.eq_zero_or_pos a with rfl | ha
    · exact .inr ⟨rfl, ih⟩
    · exact .inl ha

theorem append_zeros_le_iff {n : Nat} (h : t.length = l.length + n) :
    l ++ List.replicate n 0 ≤ t ↔ l ≤ t.take l.length := by
  induction l generalizing t with
  | nil =>
    have hn : n = t.length := by simpa using h.symm
    rw [hn]
    exact iff_of_true (zeros_le t) (nil_le_numbers _)
  | cons a l ih =>
    cases t with
    | nil =>
      rw [List.length_nil, List.length_cons] at h
      omega
    | cons b t =>
      have hlen : t.length = l.length + n := by
        rw [List.length_cons, List.length_cons] at h
        omega
      rw [List.cons_append, List.length_cons, List.take_succ_cons, numbers_le_numbers_iff, numbers_le_numbers_iff,
        ih hlen]

theorem take_le_take (h : s ≤ t) (n : Nat) : s.take n ≤ t.take n := by
  induction n generalizing s t with
  | zero => exact le_rfl
  | succ n ih =>
    cases s with
    | nil => exact nil_le_numbers _
    | cons a s =>
      cases t with
      | nil => exact absurd h (not_numbers_le_nil a s)
      | cons b t =>
        rw [numbers_le_numbers_iff] at h
        rw [List.take_succ_cons, List.take_succ_cons, numbers_le_numbers_iff]
        exact h.imp_right fun ⟨hab, hst⟩ => ⟨hab, ih hst⟩

theorem take_le (t : List Nat) (n : Nat) : t.take n ≤ t := by
  induction n generalizing t with
  | zero => exact nil_le_numbers t
  | succ n ih =>
    cases t with
    | nil => exact le_rfl
    | cons a t =>
      rw [List.take_succ_cons, numbers_le_numbers_iff]
      exact .inr ⟨rfl, ih t⟩

end RuntimeRanges
