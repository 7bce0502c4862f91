import RuntimeRanges.Range.Partial
import RuntimeRanges.Proofs.Magnitude
import RuntimeRanges.Proofs.Release.Reading

/-!
Reading the parts of a version as a partial version: nothing behind the first wildcard counts, and what is left
is read as the numbers that were written.
-/

namespace RuntimeRanges

namespace Component

theorem mem_chars {comp : Component} {c : Char} (h : c ∈ comp.chars) : c.isDigit = true ∨ c = 'x' := by
  cases comp with
  | number n => exact .inl (Numeral.isDigit_of_mem_digits h)
  | wildcard => exact .inr (List.mem_singleton.1 h)

theorem chars_ne_nil (comp : Component) : comp.chars ≠ [] := by
  cases comp with
  | number n => exact Numeral.digits_ne_nil n
  | wildcard => exact List.cons_ne_nil _ _

/-- The component as a place of a partial version. -/
def place : Component → Range.Partial.Place
  | number n => .digits (Numeral.digits n)
  | wildcard => .wildcard

end Component

namespace Parts

theorem chars_eq (p : Parts) : p.chars = p.major.chars ++ '.' :: (p.minor.chars ++ '.' :: p.patch.chars) := by
  simp [chars]

theorem mem_chars {p : Parts} {c : Char} (h : c ∈ p.chars) : c.isDigit = true ∨ c = '.' ∨ c = 'x' := by
  rw [chars_eq] at h
  simp only [List.mem_append, List.mem_cons] at h
  rcases h with h | h | h | h | h
  · exact (Component.mem_chars h).imp_right .inr
  · exact .inr (.inl h)
  · exact (Component.mem_chars h).imp_right .inr
  · exact .inr (.inl h)
  · exact (Component.mem_chars h).imp_right .inr

theorem chars_ofNumbers (a b c : Nat) : (ofNumbers a b c).chars = Release.tripleChars a b c :=
  chars_eq _

end Parts

namespace Range

theorem readRelease_eq_ok_iff {cs : List Char} {r : Release} : readRelease cs = .ok r ↔ Release.read cs = .ok r := by
  rw [readRelease]
  cases Release.read cs with
  | ok s => simp
  | error e => cases e <;> simp

namespace Partial

open Numeral (Writable)

variable {rest : List Char}

/-- A run of decimal digits is taken as a place up to where no digit goes on. -/
theorem takePlace?_run {run : List Char} (hne : run ≠ []) (hrun : ∀ c ∈ run, Text.isDecimal c = true)
    (hrest : ∀ c ∈ rest.head?, Text.isDecimal c = false) : takePlace? (run ++ rest) = some (.digits run, rest) := by
  have htake := Text.takeWhile_append_of_stop hrun hrest
  have hdrop := Text.dropWhile_append_of_stop hrun hrest
  obtain ⟨c, cs, rfl⟩ := List.exists_cons_of_ne_nil hne
  have hc : Text.isDecimal c = true := hrun c List.mem_cons_self
  have hx : ¬ (c = 'x' ∨ c = 'X' ∨ c = '*') := by
    rintro (rfl | rfl | rfl) <;> exact absurd hc (by decide)
  rw [List.cons_append] at htake hdrop ⊢
  rw [takePlace?, if_neg hx, if_pos hc, htake, hdrop]

theorem takePlace?_chars (comp : Component) (hrest : ∀ c ∈ rest.head?, Text.isDecimal c = false) :
    takePlace? (comp.chars ++ rest) = some (comp.place, rest) := by
  cases comp with
  | wildcard => rfl
  | number n =>
    exact takePlace?_run (Numeral.digits_ne_nil n)
      (fun _ hc => Text.isDecimal_of_isDigit (Numeral.isDigit_of_mem_digits hc)) hrest

theorem takeFurther_of_takePlace? {cs : List Char} {place : Place} (h : takePlace? cs = some (place, rest)) :
    takeFurther ('.' :: cs) = (place, rest) := by
  have hd : Text.dropStart? ['.'] ('.' :: cs) = some cs := rfl
  rw [takeFurther, hd, Option.bind_some, h]

theorem takeFurther_chars (comp : Component) (hrest : ∀ c ∈ rest.head?, Text.isDecimal c = false) :
    takeFurther ('.' :: (comp.chars ++ rest)) = (comp.place, rest) :=
  takeFurther_of_takePlace? (takePlace?_chars comp hrest)

theorem ofChars?_chars (p : Parts) :
    Spelling.ofChars? p.chars = some ⟨p.major.place, p.minor.place, p.patch.place, []⟩ := by
  have hv : Text.dropStart? ['v'] p.chars = none := by
    apply Text.dropStart?_singleton_eq_none
    intro d hd
    rcases Parts.mem_chars (List.mem_of_mem_head? hd) with hd | rfl | rfl
    · exact Text.ne_of_isDigit hd rfl
    · decide
    · decide
  have hpoint (cs : List Char) : ∀ c ∈ ('.' :: cs).head?, Text.isDecimal c = false := by
    rintro c hc
    obtain rfl : '.' = c := by simpa using hc
    decide
  have hpatch : takeFurther ('.' :: p.patch.chars) = (p.patch.place, []) := by
    have h : takeFurther ('.' :: (p.patch.chars ++ [])) = _ := takeFurther_chars p.patch (by simp)
    rwa [List.append_nil] at h
  rw [Spelling.ofChars?, hv, Option.getD_none, Parts.chars_eq, takePlace?_chars p.major (hpoint _)]
  simp only [Option.bind_eq_bind, Option.bind_some, takeFurther_chars p.minor (hpoint _), hpatch]
  rfl

/-- The partial version that parts stand for: nothing behind the first wildcard counts. -/
def ofParts (p : Parts) : Partial :=
  match p.major, p.minor, p.patch with
  | .wildcard, _, _ => any
  | .number a, .wildcard, _ => major a
  | .number a, .number b, .wildcard => minor a b
  | .number a, .number b, .number c => full a b c (.ofNumbers a b c)

theorem readNumber_digits {n : Nat} (hn : Numeral.Short n) : readNumber (Numeral.digits n) = .ok n := by
  rw [readNumber, Numeral.read_of_write hn.write_eq]
  rfl

theorem readRelease_tripleChars_eq_ok_iff {a b c : Nat} {r : Release} :
    readRelease (Release.tripleChars a b c) = .ok r ↔
      (Writable a ∧ Writable b ∧ Writable c) ∧ r = .ofNumbers a b c := by
  rw [← Release.read_tripleChars_eq_ok_iff, readRelease_eq_ok_iff]

theorem readRelease_tripleChars {a b c : Nat} (ha : Numeral.Short a) (hb : Numeral.Short b)
    (hc : Numeral.Short c) : readRelease (Release.tripleChars a b c) = .ok (.ofNumbers a b c) :=
  readRelease_tripleChars_eq_ok_iff.2 ⟨⟨ha.lt, hb.lt, hc.lt⟩, rfl⟩

/-- The text of parts is read as the partial version that they stand for. -/
theorem read_chars {p : Parts} (h : p.Short) : read p.chars = .ok (ofParts p) := by
  obtain ⟨ha, hb, hc⟩ := h
  obtain ⟨major, minor, patch⟩ := p
  rw [read, ofChars?_chars]
  cases major with
  | wildcard => rfl
  | number a =>
    cases minor with
    | wildcard =>
      simp only [ofSpelling, Component.place, readNumber_digits ha]
      rfl
    | number b =>
      cases patch with
      | wildcard =>
        simp only [ofSpelling, Component.place, readNumber_digits ha, readNumber_digits hb]
        rfl
      | number c =>
        have hr : releaseChars a b c [] = Release.tripleChars a b c := by
          simp [releaseChars, Release.tripleChars]
        simp only [ofSpelling, Component.place, readNumber_digits ha, readNumber_digits hb,
          readNumber_digits hc, bind, Except.bind]
        rw [hr, readRelease_tripleChars ha hb hc]
        rfl

end Partial

end Range

end RuntimeRanges
