import RuntimeRanges.Range
import RuntimeRanges.Proofs.Text.Cut

/-!
The characters of operands. A text that is read as a partial version consists of them, and no operator ends with one.
-/

namespace RuntimeRanges.Range

/-- The characters of a partial version, in whatever place they stand. -/
def isOperandChar (c : Char) : Bool :=
  Text.isDecimal c || Partial.isTagChar c || c == '*' || c == '+'

/-- What follows is left of a text once operand characters are taken off its front. -/
def LeavesOperand (cs rest : List Char) : Prop :=
  ∃ run, cs = run ++ rest ∧ ∀ c ∈ run, isOperandChar c = true

variable {cs ds rest : List Char} {c : Char}

namespace LeavesOperand

theorem refl (cs : List Char) : LeavesOperand cs cs :=
  Text.Leaves.refl cs

theorem cons (hc : isOperandChar c = true) (h : LeavesOperand cs rest) : LeavesOperand (c :: cs) rest :=
  Text.Leaves.cons hc h

theorem trans (h : LeavesOperand cs ds) (h' : LeavesOperand ds rest) : LeavesOperand cs rest :=
  Text.Leaves.trans h h'

theorem dropWhile {p : Char → Bool} (hp : ∀ c, p c = true → isOperandChar c = true) (cs : List Char) :
    LeavesOperand cs (cs.dropWhile p) :=
  Text.Leaves.dropWhile hp cs

end LeavesOperand

theorem isOperandChar_of_isDecimal (hc : Text.isDecimal c = true) : isOperandChar c = true := by
  rw [isOperandChar, hc]
  rfl

theorem isOperandChar_of_isTagChar (hc : Partial.isTagChar c = true) : isOperandChar c = true := by
  rw [isOperandChar, hc, Bool.or_true]
  rfl

theorem eq_of_endsOperator (hc : endsOperator c = true) : c = '>' ∨ c = '<' ∨ c = '=' ∨ c = '^' ∨ c = '~' := by
  simpa [endsOperator, or_assoc] using hc

theorem endsOperator_of_isOperandChar (hc : isOperandChar c = true) : endsOperator c = false := by
  cases hop : endsOperator c with
  | false => rfl
  | true => obtain rfl | rfl | rfl | rfl | rfl := eq_of_endsOperator hop <;> exact absurd hc (by decide)

theorem endsOperator_of_isBlank (hc : Text.isBlank c = true) : endsOperator c = false := by
  cases hop : endsOperator c with
  | false => rfl
  | true => obtain rfl | rfl | rfl | rfl | rfl := eq_of_endsOperator hop <;> exact absurd hc (by decide)

namespace Partial

theorem leavesOperand_of_takePlace? {place : Place} (h : takePlace? cs = some (place, rest)) :
    LeavesOperand cs rest := by
  cases cs with
  | nil => cases h
  | cons c cs =>
    rw [takePlace?] at h
    split at h
    · next hx =>
      cases h
      apply (LeavesOperand.refl _).cons
      obtain rfl | rfl | rfl := hx
      all_goals decide
    · split at h
      · cases h
        exact .dropWhile (fun d hd => isOperandChar_of_isDecimal hd) _
      · cases h

theorem leavesOperand_takeFurther (cs : List Char) : LeavesOperand cs (takeFurther cs).2 := by
  rw [takeFurther]
  cases hd : Text.dropStart? ['.'] cs with
  | none => exact .refl cs
  | some ds =>
    obtain rfl : cs = '.' :: ds := Text.dropStart?_eq_some_iff.1 hd
    rw [Option.bind_some]
    cases hp : takePlace? ds with
    | none => exact .refl _
    | some found => exact (leavesOperand_of_takePlace? hp).cons (by decide)

theorem leavesOperand_of_takeTag? {mark : Char} {tag : List Char} (hm : isOperandChar mark = true)
    (h : takeTag? mark cs = some (tag, rest)) : LeavesOperand cs rest := by
  rw [takeTag?] at h
  cases hd : Text.dropStart? [mark] cs with
  | none =>
    rw [hd] at h
    cases h
    exact .refl cs
  | some ds =>
    obtain rfl : cs = mark :: ds := Text.dropStart?_eq_some_iff.1 hd
    rw [hd] at h
    dsimp only at h
    split at h
    · cases h
    · cases h
      exact (LeavesOperand.dropWhile (fun d hd => isOperandChar_of_isTagChar hd) ds).cons hm

theorem isOperandChar_of_ofChars? {s : Spelling} (h : Spelling.ofChars? cs = some s) :
    ∀ c ∈ cs, isOperandChar c = true := by
  have hv : LeavesOperand cs ((Text.dropStart? ['v'] cs).getD cs) := by
    cases hd : Text.dropStart? ['v'] cs with
    | none => exact .refl cs
    | some ds =>
      obtain rfl : cs = 'v' :: ds := Text.dropStart?_eq_some_iff.1 hd
      exact (LeavesOperand.refl ds).cons (by decide)
  simp only [Spelling.ofChars?, Option.bind_eq_bind] at h
  obtain ⟨⟨major, r₁⟩, h₁, h⟩ := Option.bind_eq_some_iff.1 h
  obtain ⟨⟨pre, r₂⟩, h₂, h⟩ := Option.bind_eq_some_iff.1 h
  obtain ⟨⟨build, r₃⟩, h₃, h⟩ := Option.bind_eq_some_iff.1 h
  split at h
  · next hempty =>
    obtain rfl : r₃ = [] := List.isEmpty_iff.1 hempty
    have hplaces := (leavesOperand_of_takePlace? h₁).trans
      ((leavesOperand_takeFurther r₁).trans (leavesOperand_takeFurther _))
    have htags := (leavesOperand_of_takeTag? (by decide) h₂).trans (leavesOperand_of_takeTag? (by decide) h₃)
    obtain ⟨run, hrun, hall⟩ := hv.trans (hplaces.trans htags)
    rw [List.append_nil] at hrun
    rwa [hrun]
  · cases h

theorem isOperandChar_of_read {p : Partial} (h : read cs = .ok p) : ∀ c ∈ cs, isOperandChar c = true := by
  rw [read] at h
  cases hs : Spelling.ofChars? cs with
  | none => rw [hs] at h; cases h
  | some s => exact isOperandChar_of_ofChars? hs

end Partial

end RuntimeRanges.Range
