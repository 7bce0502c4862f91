import RuntimeRanges.Numeral

/-!
Numerals and numbers: which numbers can be written, and what a run of digits becomes once it is read and written
again.
-/

namespace RuntimeRanges.Numeral

/-- A number of at most 4300 digits. -/
def Writable (n : Nat) : Prop :=
  n < Nat.pow 10 maxDigits

instance (n : Nat) : Decidable (Writable n) :=
  inferInstanceAs (Decidable (n < _))

variable {n : Nat} {c : Char} {cs : List Char}

theorem length_digits_le_maxDigits_iff : (digits n).length ≤ maxDigits ↔ Writable n :=
  length_digits_le_iff n (by decide)

/-- The digits of a number are read exactly if there are few enough of them, and as that number. -/
theorem read_digits_eq_ok_iff {m : Nat} : read (digits n) = .ok m ↔ Writable n ∧ m = n := by
  rw [read, value_digits]
  by_cases h : Writable n
  · rw [if_pos (length_digits_le_maxDigits_iff.2 h), Except.ok.injEq]
    exact ⟨fun he => ⟨h, he.symm⟩, fun he => he.2.symm⟩
  · rw [if_neg (mt length_digits_le_maxDigits_iff.1 h)]
    exact iff_of_false (fun he => by cases he) fun he => h he.1

theorem digitsFrom_cons (hc : c.isDigit = true) :
    digitsFrom n (c :: cs) = digitsFrom (n * 10 + (c.toNat - '0'.toNat)) cs := by
  rw [digitsFrom, List.foldl_cons, Text.digitValue?_of_isDigit hc]
  rfl

theorem sub_zero_lt_ten (hc : c.isDigit = true) : c.toNat - '0'.toNat < 10 := by
  have hd := Text.toNat_of_isDigit hc
  change c.toNat - 48 < 10
  omega

theorem digits_of_isDigit (hc : c.isDigit = true) : digits (c.toNat - '0'.toNat) = [c] := by
  have hd := Text.toNat_of_isDigit hc
  have hlt := sub_zero_lt_ten hc
  have hchar : (c.toNat - '0'.toNat).digitChar = c := by
    rw [← Char.toNat_inj, Nat.toNat_digitChar_of_lt_ten hlt]
    change 48 + (c.toNat - 48) = c.toNat
    omega
  rw [digits, Nat.toDigits_of_lt_base hlt, hchar]

theorem digits_digitsFrom (hn : 0 < n) (hcs : ∀ c ∈ cs, c.isDigit = true) :
    digits (digitsFrom n cs) = digits n ++ cs := by
  induction cs generalizing n with
  | nil => rw [List.append_nil]; rfl
  | cons c cs ih =>
    have hc : c.isDigit = true := hcs c List.mem_cons_self
    have hpush : digits (n * 10 + (c.toNat - '0'.toNat)) = digits n ++ [c] := by
      rw [← digits_of_isDigit hc, Nat.mul_comm]
      exact (Nat.toDigits_append_toDigits (by decide) hn (sub_zero_lt_ten hc)).symm
    rw [digitsFrom_cons hc, ih (by omega) fun d h => hcs d (List.mem_cons_of_mem _ h), hpush, List.append_assoc,
      List.singleton_append]

/-- A numeral is the one that its number is written with unless a zero stands in front of other digits. -/
theorem digits_value_cons (hzero : c = '0' → cs = []) (hcs : ∀ d ∈ c :: cs, d.isDigit = true) :
    digits (value (c :: cs)) = c :: cs := by
  have hc : c.isDigit = true := hcs c List.mem_cons_self
  have hd := Text.toNat_of_isDigit hc
  rw [value, digitsFrom_cons hc, Nat.zero_mul, Nat.zero_add]
  by_cases h : c = '0'
  · rw [hzero h]
    exact digits_of_isDigit hc
  · have hpos : 0 < c.toNat - '0'.toNat := by
      have hne : c.toNat ≠ 48 := fun he => h (Char.toNat_inj.1 he)
      change 0 < c.toNat - 48
      omega
    rw [digits_digitsFrom hpos fun d hmem => hcs d (List.mem_cons_of_mem _ hmem), digits_of_isDigit hc,
      List.singleton_append]

theorem value_zero_cons (cs : List Char) : value ('0' :: cs) = value cs :=
  digitsFrom_cons rfl

/-- The text without the zeros that stand in front of the other digits of a number; `inside` says whether the text goes
on with a number. -/
def dropZeros (inside : Bool) : List Char → List Char
  | [] => []
  | c :: cs =>
    if inside = false ∧ c = '0' ∧ cs.head?.any Char.isDigit = true then dropZeros false cs
    else c :: dropZeros c.isDigit cs

theorem length_dropZeros_le (inside : Bool) (cs : List Char) : (dropZeros inside cs).length ≤ cs.length := by
  induction cs generalizing inside with
  | nil => exact Nat.le_refl _
  | cons c cs ih =>
    rw [dropZeros]
    split
    · exact Nat.le_succ_of_le (ih false)
    · exact Nat.succ_le_succ (ih _)

theorem dropZeros_cons_of_notDigit (hc : c.isDigit = false) (inside : Bool) (cs : List Char) :
    dropZeros inside (c :: cs) = c :: dropZeros false cs := by
  have hstay : ¬ (inside = false ∧ c = '0' ∧ cs.head?.any Char.isDigit = true) := by
    rintro ⟨-, rfl, -⟩
    cases hc
  rw [dropZeros, if_neg hstay, hc]

section

variable {rest : List Char}

theorem dropZeros_true_append (hcs : ∀ c ∈ cs, c.isDigit = true) (hrest : ∀ c ∈ rest.head?, c.isDigit = false) :
    dropZeros true (cs ++ rest) = cs ++ dropZeros false rest := by
  induction cs with
  | nil =>
    cases rest with
    | nil => rfl
    | cons d rest =>
      have hd : d.isDigit = false := hrest d rfl
      rw [List.nil_append, List.nil_append, dropZeros_cons_of_notDigit hd, dropZeros_cons_of_notDigit hd]
  | cons c cs ih =>
    rw [List.cons_append, dropZeros, if_neg (by simp), hcs c List.mem_cons_self,
      ih fun d h => hcs d (List.mem_cons_of_mem _ h), List.cons_append]

theorem dropZeros_append (hne : cs ≠ []) (hcs : ∀ c ∈ cs, c.isDigit = true)
    (hrest : ∀ c ∈ rest.head?, c.isDigit = false) :
    dropZeros false (cs ++ rest) = digits (value cs) ++ dropZeros false rest := by
  induction cs with
  | nil => exact absurd rfl hne
  | cons c cs ih =>
    have hc : c.isDigit = true := hcs c List.mem_cons_self
    have htail : ∀ d ∈ cs, d.isDigit = true := fun d h => hcs d (List.mem_cons_of_mem _ h)
    -- A zero goes as long as a digit of the same number follows; all other first digits stay.
    by_cases hzero : c = '0' → cs = []
    · have hstay : ¬ (false = false ∧ c = '0' ∧ (cs ++ rest).head?.any Char.isDigit = true) := by
        rintro ⟨-, hc, hhead⟩
        rw [hzero hc, List.nil_append] at hhead
        obtain ⟨d, hd, hdigit⟩ := (Option.any_eq_true _ _).1 hhead
        rw [hrest d hd] at hdigit
        cases hdigit
      rw [digits_value_cons hzero hcs, List.cons_append, dropZeros, if_neg hstay, hc, dropZeros_true_append htail hrest,
        List.cons_append]
    · obtain ⟨rfl, hcons⟩ : c = '0' ∧ cs ≠ [] := Classical.not_imp.1 hzero
      have hdrop : (cs ++ rest).head?.any Char.isDigit = true := by
        rw [List.head?_append, List.head?_eq_some_head hcons]
        exact htail _ (List.head_mem hcons)
      rw [List.cons_append, dropZeros, if_pos ⟨rfl, rfl, hdrop⟩, ih hcons htail, value_zero_cons]

end

theorem digits_value (hne : cs ≠ []) (hcs : ∀ c ∈ cs, c.isDigit = true) : digits (value cs) = dropZeros false cs := by
  have h : dropZeros false (cs ++ []) = digits (value cs) ++ [] := dropZeros_append hne hcs (by simp)
  rw [List.append_nil, List.append_nil] at h
  exact h.symm

theorem writable_value (hne : cs ≠ []) (hcs : ∀ c ∈ cs, c.isDigit = true) (hlen : cs.length ≤ maxDigits) :
    Writable (value cs) := by
  rw [← length_digits_le_maxDigits_iff, digits_value hne hcs]
  exact Nat.le_trans (length_dropZeros_le false cs) hlen

example : dropZeros false "v007.0.10".toList = "v7.0.10".toList := by decide

end RuntimeRanges.Numeral
