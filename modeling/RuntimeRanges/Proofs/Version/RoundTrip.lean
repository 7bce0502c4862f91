import Mathlib.Data.Set.Basic
import RuntimeRanges.Proofs.Version.Text

/-!
Writing versions and reading them are inverse to each other, on the versions that reading can give: those whose
numbers can be written, whose major components are numbers, and which are not the limit `<=v0.0.0`. Reading forgets
nothing but redundant zeros.
-/

namespace RuntimeRanges

open Numeral (dropZeros dropZeros_append dropZeros_cons_of_notDigit)

/-- The pieces pass all checks: the first is a number, and each of the others one or the wildcard. -/
structure Pieces.Readable (p : Pieces) : Prop where
  major : IsNumber p.major
  minor : p.minor = ['x'] ∨ IsNumber p.minor
  patch : p.patch = ['x'] ∨ IsNumber p.patch

namespace Component

variable {piece rest : List Char}

theorem writable_ofPiece (hpiece : IsPiece piece) (h : piece = ['x'] ∨ IsNumber piece) : (ofPiece piece).Writable := by
  rw [ofPiece]
  split
  · trivial
  · next hx =>
    obtain ⟨hdigits, hlen⟩ := h.resolve_left hx
    exact Numeral.writable_value hpiece.1 hdigits hlen

theorem ofPiece_ne_wildcard (h : IsNumber piece) : ofPiece piece ≠ wildcard := by
  have hx : piece ≠ ['x'] := by
    rintro rfl
    cases h.1 'x' List.mem_cons_self
  rw [ofPiece, if_neg hx]
  intro h
  cases h

/-- A component is written as its piece without redundant zeros. -/
theorem dropZeros_piece_append (hpiece : IsPiece piece) (h : piece = ['x'] ∨ IsNumber piece)
    (hrest : ∀ c ∈ rest.head?, c.isDigit = false) :
    dropZeros false (piece ++ rest) = (ofPiece piece).chars ++ dropZeros false rest := by
  rw [ofPiece]
  split
  · next hx =>
    rw [hx]
    exact dropZeros_cons_of_notDigit rfl false rest
  · next hx => exact dropZeros_append hpiece.1 (h.resolve_left hx).1 hrest

end Component

namespace Pieces

variable {p : Pieces} {rest : List Char}

theorem Readable.writable_parts (h : p.Readable) (hp : p.WellFormed) : p.parts.Writable :=
  ⟨Component.writable_ofPiece hp.1 (.inr h.major), Component.writable_ofPiece hp.2.1 h.minor,
    Component.writable_ofPiece hp.2.2 h.patch⟩

theorem Readable.major_ne_wildcard (h : p.Readable) : p.parts.major ≠ .wildcard :=
  Component.ofPiece_ne_wildcard h.major

theorem Readable.dropZeros_append (h : p.Readable) (hp : p.WellFormed) (hrest : ∀ c ∈ rest.head?, c.isDigit = false) :
    dropZeros false (p.chars ++ rest) = p.parts.chars ++ dropZeros false rest := by
  have hchars : p.chars ++ rest = p.major ++ '.' :: (p.minor ++ '.' :: (p.patch ++ rest)) := by simp [chars]
  rw [hchars, Component.dropZeros_piece_append hp.1 (.inr h.major) (by simp), dropZeros_cons_of_notDigit rfl,
    Component.dropZeros_piece_append hp.2.1 h.minor (by simp), dropZeros_cons_of_notDigit rfl,
    Component.dropZeros_piece_append hp.2.2 h.patch hrest, Parts.chars_eq]
  simp [parts]

end Pieces

namespace Version

variable {v : Version} {s : Spelling} {text : Scalar} {upper : Bool}

theorem readable_of_partsChecks {p : Pieces} (h : ∀ e ∈ partsChecks text upper p, e = none) : p.Readable := by
  have hnumber {slot : Slot} {piece : List Char} (hc : componentCheck text slot upper piece = none) :
      (piece = ['x'] ∧ slot ≠ .major) ∨ IsNumber piece := by
    rw [componentCheck] at hc
    split at hc
    · next hx => exact .inl hx
    · exact .inr (numberCheck_eq_none_iff.1 hc)
  simp only [partsChecks, List.forall_mem_cons] at h
  obtain ⟨hmajor, hminor, hpatch, -⟩ := h
  exact ⟨(hnumber hmajor).resolve_left fun hx => hx.2 rfl, (hnumber hminor).imp_left And.left,
    (hnumber hpatch).imp_left And.left⟩

theorem exists_token_of_operatorCheck {token : OperatorToken} (h : operatorCheck text upper token = none) :
    ∃ side : Side, token = side.token := by
  cases token with
  | less | greater => cases h
  | lessEqual => exact ⟨.atMost, rfl⟩
  | greaterEqual => exact ⟨.atLeast, rfl⟩

theorem spelling_cases (h : ∀ e ∈ checks text s, e = none) :
    (∃ p, s = ⟨none, p, none⟩ ∧ p.Readable) ∨
      (∃ side p, s = ⟨some (Side.token side), p, none⟩ ∧ p.Readable ∧ limit ⟨side, p.parts⟩ ≠ zeroLimit) ∨
      ∃ side p side' p', s = ⟨some (Side.token side), p, some (Side.token side', p')⟩ ∧ p.Readable ∧ p'.Readable := by
  obtain ⟨operator, p, bound⟩ := s
  simp only [checks, List.forall_mem_append, List.forall_mem_cons] at h
  obtain ⟨⟨⟨hop, hbound, -⟩, hparts⟩, hlimit, hchecks⟩ := h
  have hp := readable_of_partsChecks hparts
  cases bound with
  | none =>
    cases operator with
    | none => exact .inl ⟨p, rfl, hp⟩
    | some token =>
      obtain ⟨side, rfl⟩ := exists_token_of_operatorCheck hop
      refine .inr (.inl ⟨side, p, rfl, hp, ?_⟩)
      intro hzero
      cases side with
      | atLeast => cases hzero
      | atMost =>
        have hparts : p.parts = .ofNumbers 0 0 0 := by simpa [zeroLimit] using hzero
        rw [limitCheck, if_pos ⟨rfl, rfl, hparts⟩] at hlimit
        cases hlimit
  | some u =>
    obtain ⟨token', p'⟩ := u
    simp only [boundChecks, List.forall_mem_append, List.forall_mem_cons] at hchecks
    obtain ⟨hparts', hexact, -⟩ := hchecks
    cases operator with
    | none => cases hexact
    | some token =>
      obtain ⟨side, rfl⟩ := exists_token_of_operatorCheck hop
      obtain ⟨side', rfl⟩ := exists_token_of_operatorCheck hbound
      exact .inr (.inr ⟨side, p, side', p', rfl, hp, readable_of_partsChecks hparts'⟩)

theorem dropZeros_limit {p : Pieces} {rest : List Char} (side : Side) (hp : p.WellFormed) (h : p.Readable)
    (hrest : ∀ c ∈ rest.head?, c.isDigit = false) :
    dropZeros false (side.token.chars ++ 'v' :: (p.chars ++ rest)) =
      (Limit.mk side p.parts).chars ++ dropZeros false rest := by
  have hside : dropZeros false (side.token.chars ++ 'v' :: (p.chars ++ rest)) =
      side.chars ++ 'v' :: dropZeros false (p.chars ++ rest) := by
    cases side <;> simp [Side.token, OperatorToken.chars, Side.chars, dropZeros_cons_of_notDigit]
  rw [hside, h.dropZeros_append hp hrest, Limit.chars, List.append_assoc, List.cons_append]

theorem version_of_checks (hs : s.WellFormed) (h : ∀ e ∈ checks text s, e = none) :
    s.version.Writable ∧ s.version.Readable ∧ s.version.chars = dropZeros false s.chars := by
  obtain ⟨hwell, hbound⟩ := hs
  rw [Spelling.chars_eq]
  obtain ⟨p, rfl, hp⟩ | ⟨side, p, rfl, hp, hzero⟩ | ⟨side, p, side', p', rfl, hp, hp'⟩ := spelling_cases h
  · refine ⟨hp.writable_parts hwell, ⟨hp.major_ne_wildcard, by rintro u ⟨⟩, by rintro ⟨⟩⟩, ?_⟩
    change 'v' :: p.parts.chars = dropZeros false ('v' :: (p.chars ++ []))
    rw [dropZeros_cons_of_notDigit rfl, hp.dropZeros_append hwell (by simp), dropZeros, List.append_nil]
  · have hversion : Spelling.version ⟨some side.token, p, none⟩ = limit ⟨side, p.parts⟩ := by
      cases side <;> rfl
    rw [hversion]
    refine ⟨hp.writable_parts hwell, ⟨hp.major_ne_wildcard, by rintro u ⟨⟩, hzero⟩, ?_⟩
    exact ((dropZeros_limit side hwell hp (by simp [Spelling.boundChars])).trans (List.append_nil _)).symm
  · have hwell' : p'.WellFormed := hbound (side'.token, p') rfl
    have hversion : Spelling.version ⟨some side.token, p, some (side'.token, p')⟩ =
        pair ⟨side, p.parts⟩ ⟨side', p'.parts⟩ := by
      cases side <;> cases side' <;> rfl
    have hboundChars : dropZeros false (Spelling.boundChars (some (side'.token, p'))) =
        '_' :: (Limit.mk side' p'.parts).chars := by
      have htext : Spelling.boundChars (some (side'.token, p')) =
          '_' :: (side'.token.chars ++ 'v' :: (p'.chars ++ [])) := by
        simp [Spelling.boundChars]
      rw [htext, dropZeros_cons_of_notDigit rfl, dropZeros_limit side' hwell' hp' (by simp), dropZeros, List.append_nil]
    rw [hversion]
    refine ⟨⟨hp.writable_parts hwell, hp'.writable_parts hwell'⟩, ⟨hp.major_ne_wildcard, ?_, by rintro ⟨⟩⟩, ?_⟩
    · rintro u ⟨⟩
      exact hp'.major_ne_wildcard
    · refine ((dropZeros_limit side hwell hp (by simp [Spelling.boundChars])).trans ?_).symm
      rw [hboundChars]
      rfl

/-- What is read is a readable version, and its text is the one that was read without redundant zeros. -/
theorem of_read_eq_ok (h : read text = .ok v) :
    v.Writable ∧ v.Readable ∧ v.chars = dropZeros false text.plain.toList := by
  cases hs : Spelling.ofChars? text.plain.toList with
  | none =>
    rw [read, hs] at h
    cases h
  | some s =>
    have hsplit := Spelling.ofChars?_eq_some_iff.1 hs
    rw [read_of_splits hsplit] at h
    obtain ⟨hpass, rfl⟩ := firstError_eq_ok_iff.1 h
    obtain ⟨hw, hr, hchars⟩ := version_of_checks hsplit.1 hpass
    rw [hsplit.2]
    exact ⟨hw, hr, hchars⟩

theorem text_injective : Function.Injective Version.text := by
  intro v w h
  have hv := v.splits_spelling
  rw [h] at hv
  rw [← v.version_spelling, ← w.version_spelling, w.splits_spelling.unique hv]

/-- Writing and reading are inverse on the versions that are readable and whose numbers can be written, and these are
all that reading gives. The text of any other version with such numbers is refused, for the first of three reasons. -/
theorem read_text_inverse :
    (∀ v : Version, v.Writable →
        (read v.text = .ok v ↔ v.Readable) ∧
          (¬ v.Readable → read v.text = .error (.fault ⟨v.text, v.obstacle⟩))) ∧
      (∀ (text : Scalar) (v : Version), read text = .ok v →
        v.Writable ∧ v.Readable ∧ v.text = String.ofList (dropZeros false text.plain.toList)) ∧
      Function.Injective Version.text ∧ {v | ∃ text : Scalar, read text = .ok v} = {v | v.Writable ∧ v.Readable} := by
  refine ⟨fun v hv => ⟨read_text_eq_ok_iff hv, read_text_of_not_readable hv⟩, ?_, text_injective, ?_⟩
  · intro text v h
    obtain ⟨hw, hr, hchars⟩ := of_read_eq_ok h
    exact ⟨hw, hr, congrArg String.ofList hchars⟩
  · ext v
    constructor
    · rintro ⟨text, h⟩
      obtain ⟨hw, hr, -⟩ := of_read_eq_ok h
      exact ⟨hw, hr⟩
    · rintro ⟨hw, hr⟩
      exact ⟨v.text, (read_text_eq_ok_iff hw).2 hr⟩

/-- `<=v0.010.x_>=v00.9.2` loses its redundant zeros, and `>=v1.2.3_<=vx.4.x` cannot be read. -/
theorem read_text_inverse_zeros :
    (pair ⟨.atMost, ⟨.number 0, .number 10, .wildcard⟩⟩ ⟨.atLeast, .ofNumbers 0 9 2⟩).text = "<=v0.10.x_>=v0.9.2" ∧
      read ">=v1.2.3_<=vx.4.x" = .error (.fault ⟨">=v1.2.3_<=vx.4.x", .number .major true⟩) := by
  constructor
  · have h : read "<=v0.010.x_>=v00.9.2" =
        .ok (pair ⟨.atMost, ⟨.number 0, .number 10, .wildcard⟩⟩ ⟨.atLeast, .ofNumbers 0 9 2⟩) := by
      rfl
    rw [(read_text_inverse.2.1 _ _ h).2.2]
    rfl
  · have hw : (pair ⟨.atLeast, .ofNumbers 1 2 3⟩ ⟨.atMost, ⟨.wildcard, .number 4, .wildcard⟩⟩).Writable := by
      decide +kernel
    exact (read_text_inverse.1 _ hw).2 (by decide)

end Version

end RuntimeRanges
