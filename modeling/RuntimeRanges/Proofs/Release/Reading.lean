import RuntimeRanges.Release.Reader
import RuntimeRanges.Proofs.Numeral
import RuntimeRanges.Proofs.Outcome
import RuntimeRanges.Proofs.Text.Cut

/-!
Reading the text of a release that consists of three numbers.
-/

namespace RuntimeRanges

namespace Text

variable {c d : Char}

theorem ne_of_isDigit (h : c.isDigit = true) (hd : d.isDigit = false) : c ≠ d := by
  rintro rfl
  rw [h] at hd
  cases hd

theorem isBlank_of_isDigit (h : c.isDigit = true) : isBlank c = false := by
  have hc := toNat_of_isDigit h
  simp only [isBlank, Bool.or_eq_false_iff, Bool.and_eq_false_iff, decide_eq_false_iff_not, beq_eq_false_iff_ne]
  omega

theorem toLower_of_isDigit (h : c.isDigit = true) : c.toLower = c := by
  have hc := toNat_of_isDigit h
  have hn : ¬ (c.val ≥ 'A'.val ∧ c.val ≤ 'Z'.val) := by
    simp only [ge_iff_le, UInt32.le_iff_toNat_le]
    change ¬ (65 ≤ c.toNat ∧ c.toNat ≤ 90)
    omega
  exact dif_neg hn

end Text

namespace Release

open Numeral (Writable)

variable {cs ds rest : List Char}

theorem takeDigits_append (hcs : ∀ c ∈ cs, c.isDigit = true) (hrest : ∀ c ∈ rest.head?, c.isDigit = false) :
    takeDigits (cs ++ rest) = (cs, rest) := by
  rw [takeDigits, Text.takeWhile_append_of_stop hcs hrest, Text.dropWhile_append_of_stop hcs hrest]

theorem takeEpoch_append (hcs : ∀ c ∈ cs, c.isDigit = true) (rest : List Char) :
    takeEpoch (cs ++ '.' :: rest) = ([], cs ++ '.' :: rest) := by
  have hd : takeDigits (cs ++ '.' :: rest) = (cs, '.' :: rest) :=
    takeDigits_append hcs (by simp)
  rw [takeEpoch, hd]
  cases cs with
  | nil => rfl
  | cons c cs => simp

theorem takeNumbers_cons_digit {c : Char} (hc : c.isDigit = true) (cs : List Char) :
    takeNumbers (c :: cs) = (c :: (takeNumbers cs).1, (takeNumbers cs).2) := by
  have hp : c ≠ '.' := Text.ne_of_isDigit hc rfl
  rw [takeNumbers]
  · simp [hc]
  · simp [hp]

theorem takeNumbers_append (hcs : ∀ c ∈ cs, c.isDigit = true) (rest : List Char) :
    takeNumbers (cs ++ rest) = (cs ++ (takeNumbers rest).1, (takeNumbers rest).2) := by
  induction cs with
  | nil => rfl
  | cons c cs ih =>
    rw [List.cons_append, takeNumbers_cons_digit (hcs c (by simp)),
      ih fun d hd => hcs d (List.mem_cons_of_mem _ hd)]
    rfl

theorem takeNumbers_point_append (hne : cs ≠ []) (hcs : ∀ c ∈ cs, c.isDigit = true) (rest : List Char) :
    takeNumbers ('.' :: (cs ++ rest)) =
      ([], (cs ++ (takeNumbers rest).1) :: (takeNumbers rest).2.1, (takeNumbers rest).2.2) := by
  cases cs with
  | nil => exact absurd rfl hne
  | cons c cs =>
    have hn : takeNumbers (cs ++ rest) = _ := takeNumbers_append (fun d hd => hcs d (List.mem_cons_of_mem _ hd)) rest
    rw [List.cons_append, takeNumbers, if_pos (hcs c (by simp)), hn]
    rfl

def tripleChars (a b c : Nat) : List Char :=
  Numeral.digits a ++ '.' :: (Numeral.digits b ++ '.' :: Numeral.digits c)

theorem mem_tripleChars {a b c : Nat} {d : Char} (h : d ∈ tripleChars a b c) : d.isDigit = true ∨ d = '.' := by
  simp only [tripleChars, List.mem_append, List.mem_cons] at h
  rcases h with h | h | h | h | h
  · exact .inl (Numeral.isDigit_of_mem_digits h)
  · exact .inr h
  · exact .inl (Numeral.isDigit_of_mem_digits h)
  · exact .inr h
  · exact .inl (Numeral.isDigit_of_mem_digits h)

theorem takeNumbers_tripleChars (a b c : Nat) :
    takeNumbers (tripleChars a b c) = (Numeral.digits a, [Numeral.digits b, Numeral.digits c], []) := by
  have hd (n : Nat) : ∀ d ∈ Numeral.digits n, d.isDigit = true := fun d => Numeral.isDigit_of_mem_digits
  have hc := takeNumbers_point_append (Numeral.digits_ne_nil c) (hd c) []
  rw [List.append_nil] at hc
  rw [tripleChars, takeNumbers_append (hd a), takeNumbers_point_append (Numeral.digits_ne_nil b) (hd b), hc]
  simp [takeNumbers]

theorem ofChars?_tripleChars (a b c : Nat) :
    Spelling.ofChars? (tripleChars a b c) =
      some ⟨[], [Numeral.digits a, Numeral.digits b, Numeral.digits c], none, none, none, []⟩ := by
  have hv : Text.dropStart? ['v'] (tripleChars a b c) = none := by
    apply Text.dropStart?_singleton_eq_none
    intro d hd
    rcases mem_tripleChars (List.mem_of_mem_head? hd) with hd | rfl
    · exact Text.ne_of_isDigit hd rfl
    · decide
  have he : takeEpoch (tripleChars a b c) = ([], tripleChars a b c) :=
    takeEpoch_append (fun d => Numeral.isDigit_of_mem_digits) _
  have ha : (Numeral.digits a).isEmpty = false := by
    rw [List.isEmpty_eq_false_iff]
    exact Numeral.digits_ne_nil a
  rw [Spelling.ofChars?, hv, Option.getD_none, he]
  simp only [takeNumbers_tripleChars, ha]
  rfl

theorem readDigits_digits_eq_ok_iff {n m : Nat} :
    readDigits (Numeral.digits n) = .ok m ↔ Writable n ∧ m = n := by
  rw [readDigits, mapError_eq_ok_iff, Numeral.read_digits_eq_ok_iff]

theorem read_tripleChars_eq (a b c : Nat) :
    read (tripleChars a b c) = (do
      let x ← readDigits (Numeral.digits a)
      let y ← readDigits (Numeral.digits b)
      let z ← readDigits (Numeral.digits c)
      return ofNumbers x y z) := by
  have ht : Text.trim (tripleChars a b c) = tripleChars a b c := by
    apply Text.trim_of_noBlank
    intro d hd
    rcases mem_tripleChars hd with hd | rfl
    · exact Text.isBlank_of_isDigit hd
    · rfl
  have hl : (tripleChars a b c).map Char.toLower = tripleChars a b c := by
    refine (List.map_congr_left fun d hd => ?_).trans (List.map_id _)
    rcases mem_tripleChars hd with hd | rfl
    · exact Text.toLower_of_isDigit hd
    · rfl
  rw [read, ht, hl, ofChars?_tripleChars]
  simp only [ofSpelling, readAll]
  cases readDigits (Numeral.digits a) with
  | error e => rfl
  | ok x =>
    cases readDigits (Numeral.digits b) with
    | error e => rfl
    | ok y => cases readDigits (Numeral.digits c) <;> rfl

/-- Three numbers are read exactly if they can be written, and as the release that they make. -/
theorem read_tripleChars_eq_ok_iff {a b c : Nat} {r : Release} :
    read (tripleChars a b c) = .ok r ↔ (Writable a ∧ Writable b ∧ Writable c) ∧ r = ofNumbers a b c := by
  simp only [read_tripleChars_eq, bind_eq_ok_iff, readDigits_digits_eq_ok_iff]
  constructor
  · rintro ⟨_, ⟨ha, rfl⟩, _, ⟨hb, rfl⟩, _, ⟨hc, rfl⟩, h⟩
    cases h
    exact ⟨⟨ha, hb, hc⟩, rfl⟩
  · rintro ⟨⟨ha, hb, hc⟩, rfl⟩
    exact ⟨a, ⟨ha, rfl⟩, b, ⟨hb, rfl⟩, c, ⟨hc, rfl⟩, rfl⟩

end Release

end RuntimeRanges
