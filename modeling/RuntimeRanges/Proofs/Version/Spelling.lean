import RuntimeRanges.Version.Spelling
import RuntimeRanges.Proofs.Text.Cut

/-!
Cutting the text of a version. Pieces end only where a separator follows, so that a text can be cut in one way at
most: the cut spelling is the only one with the characters of the text.
-/

namespace RuntimeRanges

variable {cs rest piece : List Char} {c : Char}

instance : DecidablePred IsPiece := fun cs =>
  decidable_of_iff (cs ≠ [] ∧ cs.all isPieceChar = true) (and_congr_right' List.all_eq_true)

theorem isBlank_of_isPieceChar (h : isPieceChar c = true) : Text.isBlank c = false := by
  rw [isPieceChar, Bool.and_eq_true] at h
  simpa using h.2

theorem takePiece?_eq_some_iff :
    takePiece? cs = some (piece, rest) ↔
      IsPiece piece ∧ cs = piece ++ rest ∧ ∀ c ∈ rest.head?, isPieceChar c = false := by
  constructor
  · intro h
    rw [takePiece?] at h
    split at h
    · cases h
    · next hne =>
      cases h
      refine ⟨⟨mt List.isEmpty_iff.2 hne, ?_⟩, List.takeWhile_append_dropWhile.symm, ?_⟩
      · exact List.all_eq_true.1 List.all_takeWhile
      · intro c hc
        have hstop := List.head?_dropWhile_not isPieceChar cs
        rw [Option.mem_def.1 hc] at hstop
        exact hstop
  · rintro ⟨⟨hne, hpiece⟩, rfl, hrest⟩
    rw [takePiece?, Text.takeWhile_append_of_stop hpiece hrest, Text.dropWhile_append_of_stop hpiece hrest,
      List.isEmpty_eq_false_iff.2 hne]
    rfl

theorem takeChar?_eq_some_iff {d : Char} : takeChar? d cs = some rest ↔ cs = d :: rest := by
  cases cs with
  | nil => simp [takeChar?]
  | cons c cs => by_cases h : c = d <;> simp [takeChar?, h]

namespace Pieces

instance : DecidablePred WellFormed :=
  fun p => inferInstanceAs (Decidable (IsPiece p.major ∧ IsPiece p.minor ∧ IsPiece p.patch))

theorem isBlank_of_mem_chars {p : Pieces} (hp : p.WellFormed) (h : c ∈ p.chars) : Text.isBlank c = false := by
  obtain ⟨hmajor, hminor, hpatch⟩ := hp
  simp only [chars, List.mem_append, List.mem_cons] at h
  obtain (h | rfl | h) | rfl | h := h
  · exact isBlank_of_isPieceChar (hmajor.2 c h)
  · rfl
  · exact isBlank_of_isPieceChar (hminor.2 c h)
  · rfl
  · exact isBlank_of_isPieceChar (hpatch.2 c h)

end Pieces

theorem takePieces?_eq_some_iff {p : Pieces} :
    takePieces? cs = some (p, rest) ↔
      p.WellFormed ∧ cs = p.chars ++ rest ∧ ∀ c ∈ rest.head?, isPieceChar c = false := by
  obtain ⟨major, minor, patch⟩ := p
  simp only [takePieces?, Option.bind_eq_bind, Option.bind_eq_some_iff, Prod.exists, takePiece?_eq_some_iff,
    takeChar?_eq_some_iff]
  constructor
  · rintro ⟨_, _, ⟨hmajor, rfl, -⟩, _, rfl, _, _, ⟨hminor, rfl, -⟩, _, rfl, _, _, ⟨hpatch, rfl, hrest⟩, h⟩
    cases h
    exact ⟨⟨hmajor, hminor, hpatch⟩, by simp [Pieces.chars], hrest⟩
  · rintro ⟨⟨hmajor, hminor, hpatch⟩, rfl, hrest⟩
    have hpoint (ds : List Char) : ∀ c ∈ ('.' :: ds).head?, isPieceChar c = false := by
      rintro c hc
      obtain rfl : '.' = c := by simpa using hc
      rfl
    exact ⟨major, _, ⟨hmajor, by simp [Pieces.chars], hpoint _⟩, _, rfl, minor, _, ⟨hminor, rfl, hpoint _⟩, _, rfl,
      patch, rest, ⟨hpatch, rfl, hrest⟩, rfl⟩

namespace OperatorToken

variable {token : OperatorToken}

theorem isBlank_of_mem_chars (h : c ∈ token.chars) : Text.isBlank c = false := by
  have hc : c = '<' ∨ c = '>' ∨ c = '=' := by
    cases token <;> grind [chars]
  obtain rfl | rfl | rfl := hc <;> rfl

theorem eq_of_takeOperator? (h : takeOperator? cs = some (token, rest)) : cs = token.chars ++ rest := by
  rw [takeOperator?.eq_def] at h
  split at h <;> cases h <;> rfl

/-- The `v` behind an operator keeps it from going on. -/
theorem takeOperator?_chars (token : OperatorToken) (cs : List Char) :
    takeOperator? (token.chars ++ 'v' :: cs) = some (token, 'v' :: cs) := by
  cases token <;> rfl

end OperatorToken

namespace Spelling

open OperatorToken (eq_of_takeOperator? takeOperator?_chars)

instance : DecidablePred WellFormed :=
  fun s => inferInstanceAs (Decidable (s.pieces.WellFormed ∧ ∀ b ∈ s.bound, b.2.WellFormed))

theorem isPieceChar_of_mem_head?_boundChars (b : Option (OperatorToken × Pieces)) :
    ∀ c ∈ (boundChars b).head?, isPieceChar c = false := by
  cases b with
  | none => simp [boundChars]
  | some b =>
    rintro c hc
    obtain rfl : '_' = c := by simpa [boundChars] using hc
    rfl

theorem bound?_eq_some_iff {b : Option (OperatorToken × Pieces)} :
    bound? cs = some b ↔ (∀ u ∈ b, u.2.WellFormed) ∧ cs = boundChars b := by
  fun_cases bound? cs with
  | case1 => cases b <;> simp [boundChars]
  | case2 cs hne =>
    simp only [Option.bind_eq_bind, Option.bind_eq_some_iff, Prod.exists, takePieces?_eq_some_iff,
      takeChar?_eq_some_iff]
    constructor
    · rintro ⟨_, rfl, token, _, hop, _, rfl, p, _, ⟨hp, rfl, -⟩, h⟩
      split at h
      · next hempty =>
        cases h
        rw [List.isEmpty_iff.1 hempty, List.append_nil] at hop
        rw [eq_of_takeOperator? hop]
        exact ⟨by simpa using hp, rfl⟩
      · cases h
    · rintro ⟨hb, rfl⟩
      cases b with
      | none => exact absurd rfl hne
      | some u =>
        obtain ⟨token, p⟩ := u
        exact ⟨_, rfl, token, _, takeOperator?_chars token p.chars, p.chars, rfl, p, [],
          ⟨hb (token, p) rfl, by simp, by simp⟩, rfl⟩

/-- Cuts what stands behind an operator, or behind the place of one that is absent. -/
def behind? (operator : Option OperatorToken) (cs : List Char) : Option Spelling := do
  let cs ← takeChar? 'v' cs
  let (pieces, cs) ← takePieces? cs
  let bound ← bound? cs
  return ⟨operator, pieces, bound⟩

theorem ofChars?_of_takeOperator? {token : OperatorToken} (h : takeOperator? cs = some (token, rest)) :
    ofChars? cs = behind? (some token) rest := by
  rw [ofChars?, h]
  rfl

theorem ofChars?_of_noOperator (h : takeOperator? cs = none) : ofChars? cs = behind? none cs := by
  rw [ofChars?, h]
  rfl

theorem behind?_eq_some_iff {operator : Option OperatorToken} {s : Spelling} :
    behind? operator cs = some s ↔
      s.operator = operator ∧ s.WellFormed ∧ cs = 'v' :: (s.pieces.chars ++ boundChars s.bound) := by
  simp only [behind?, Option.bind_eq_bind, Option.bind_eq_some_iff, Prod.exists, takePieces?_eq_some_iff,
    takeChar?_eq_some_iff, bound?_eq_some_iff]
  constructor
  · rintro ⟨_, rfl, p, _, ⟨hp, rfl, -⟩, b, ⟨hb, rfl⟩, h⟩
    cases h
    exact ⟨rfl, ⟨hp, hb⟩, rfl⟩
  · rintro ⟨rfl, ⟨hp, hb⟩, rfl⟩
    exact ⟨_, rfl, s.pieces, boundChars s.bound, ⟨hp, rfl, isPieceChar_of_mem_head?_boundChars s.bound⟩, s.bound,
      ⟨hb, rfl⟩, rfl⟩

theorem chars_eq (s : Spelling) :
    s.chars = (s.operator.map OperatorToken.chars).getD [] ++ 'v' :: (s.pieces.chars ++ boundChars s.bound) := by
  rw [chars, List.append_assoc, List.cons_append]

/-- A spelling splits a text: its pieces are pieces, and its characters are those of the text. -/
def Splits (s : Spelling) (cs : List Char) : Prop :=
  s.WellFormed ∧ cs = s.chars

instance (s : Spelling) (cs : List Char) : Decidable (s.Splits cs) :=
  inferInstanceAs (Decidable (s.WellFormed ∧ cs = s.chars))

/-- Cutting finds the spelling that splits a text, of which there is one at most. -/
theorem ofChars?_eq_some_iff {s : Spelling} : ofChars? cs = some s ↔ s.Splits cs := by
  rw [Splits, chars_eq]
  constructor
  · intro h
    cases hop : takeOperator? cs with
    | none =>
      rw [ofChars?_of_noOperator hop] at h
      obtain ⟨hs, hwell, rfl⟩ := behind?_eq_some_iff.1 h
      rw [hs]
      exact ⟨hwell, rfl⟩
    | some found =>
      obtain ⟨token, rest⟩ := found
      rw [ofChars?_of_takeOperator? hop] at h
      obtain ⟨hs, hwell, rfl⟩ := behind?_eq_some_iff.1 h
      rw [hs, eq_of_takeOperator? hop]
      exact ⟨hwell, rfl⟩
  · rintro ⟨hwell, rfl⟩
    cases hs : s.operator with
    | none => exact (ofChars?_of_noOperator rfl).trans (behind?_eq_some_iff.2 ⟨hs, hwell, rfl⟩)
    | some token =>
      exact (ofChars?_of_takeOperator? (takeOperator?_chars token _)).trans
        (behind?_eq_some_iff.2 ⟨hs, hwell, rfl⟩)

theorem Splits.unique {s s' : Spelling} (hs : s.Splits cs) (hs' : s'.Splits cs) : s' = s :=
  Option.some_inj.1 ((ofChars?_eq_some_iff.2 hs').symm.trans (ofChars?_eq_some_iff.2 hs))

theorem Splits.isBlank_of_mem {s : Spelling} (hs : s.Splits cs) (h : c ∈ cs) : Text.isBlank c = false := by
  obtain ⟨⟨hp, hb⟩, rfl⟩ := hs
  rw [chars_eq] at h
  obtain h | h := List.mem_append.1 h
  · cases hop : s.operator with
    | none => simp [hop] at h
    | some token =>
      rw [hop] at h
      exact OperatorToken.isBlank_of_mem_chars h
  · obtain rfl | h := List.mem_cons.1 h
    · rfl
    obtain h | h := List.mem_append.1 h
    · exact Pieces.isBlank_of_mem_chars hp h
    · cases hbound : s.bound with
      | none => simp [hbound, boundChars] at h
      | some u =>
        simp only [hbound, boundChars, List.cons_append, List.mem_cons, List.mem_append] at h
        obtain rfl | h | rfl | h := h
        · rfl
        · exact OperatorToken.isBlank_of_mem_chars h
        · rfl
        · exact Pieces.isBlank_of_mem_chars (hb u hbound) h

end Spelling

end RuntimeRanges
