import RuntimeRanges.Proofs.Text.Words
import RuntimeRanges.Proofs.Version.RoundTrip

/-!
Targets and range names. A target is what is an exact version as a range name, with or without a `v` in front of it; of
the two names one at most is a version, since no number begins with a `v`.
-/

namespace RuntimeRanges

namespace Numeral

/-- No run of ASCII digits in the text has more digits than a numeral may have. -/
def RunsFit (cs : List Char) : Prop :=
  ∀ run, run <:+: cs → (∀ c ∈ run, c.isDigit = true) → run.length ≤ maxDigits

theorem runsFit_of_length_le {cs : List Char} (h : cs.length ≤ maxDigits) : RunsFit cs :=
  fun _ hrun _ => Nat.le_trans hrun.length_le h

end Numeral

namespace Pieces

variable {p q : Pieces} {cs : List Char} {text : Scalar} {upper : Bool}

theorem ofChars?_eq_some_iff : ofChars? cs = some p ↔ p.WellFormed ∧ cs = p.chars := by
  have htake : takePieces? cs = some (p, []) ↔ p.WellFormed ∧ cs = p.chars := by
    simp [takePieces?_eq_some_iff]
  rw [← htake, ofChars?]
  split
  · next q hq => rw [hq, Option.some.injEq, Option.some.injEq, Prod.mk.injEq, and_iff_left rfl]
  · next hne => exact iff_of_false nofun fun h => hne p h

theorem ofTarget?_cons (h : p.WellFormed) : ofTarget? ('v' :: p.chars) = some p := by
  have hcut : ofChars? p.chars = some p := ofChars?_eq_some_iff.2 ⟨h, rfl⟩
  rw [ofTarget?, takeChar?, if_pos rfl, Option.bind_some, hcut, Option.some_or]

theorem ofTarget?_of_ne (h : ∀ q : Pieces, q.WellFormed → cs ≠ 'v' :: q.chars) : ofTarget? cs = ofChars? cs := by
  have hnone : (takeChar? 'v' cs).bind ofChars? = none := by
    rw [Option.eq_none_iff_forall_ne_some]
    intro q hq
    obtain ⟨rest, hv, hrest⟩ := Option.bind_eq_some_iff.1 hq
    obtain ⟨hwell, rfl⟩ := ofChars?_eq_some_iff.1 hrest
    exact h q hwell (takeChar?_eq_some_iff.1 hv)
  rw [ofTarget?, hnone, Option.none_or]

theorem ofTarget?_cases (h : ofTarget? cs = some p) : p.WellFormed ∧ (cs = 'v' :: p.chars ∨ cs = p.chars) := by
  rcases Option.or_eq_some_iff.1 h with h | ⟨-, h⟩
  · obtain ⟨rest, hv, hrest⟩ := Option.bind_eq_some_iff.1 h
    obtain ⟨hwell, rfl⟩ := ofChars?_eq_some_iff.1 hrest
    exact ⟨hwell, .inl (takeChar?_eq_some_iff.1 hv)⟩
  · obtain ⟨hwell, hcs⟩ := ofChars?_eq_some_iff.1 h
    exact ⟨hwell, .inr hcs⟩

theorem Readable.chars_ne_cons (h : p.Readable) (hp : p.WellFormed) (cs : List Char) : p.chars ≠ 'v' :: cs := by
  obtain ⟨c, rest, hmajor⟩ := List.exists_cons_of_ne_nil hp.1.1
  intro heq
  rw [chars, hmajor, List.cons_append, List.cons_append, List.cons.injEq] at heq
  have hdigit : c.isDigit = true := h.major.1 c (by rw [hmajor]; exact List.mem_cons_self)
  rw [heq.1] at hdigit
  cases hdigit

theorem forall_partsChecks_iff : (∀ e ∈ Version.partsChecks text upper p, e = none) ↔ p.Readable := by
  refine ⟨Version.readable_of_partsChecks, fun h => ?_⟩
  have hcheck {slot : Slot} {piece : List Char} (hslot : slot ≠ .major) (hpiece : piece = ['x'] ∨ IsNumber piece) :
      Version.componentCheck text slot upper piece = none := by
    rw [Version.componentCheck]
    split
    · rfl
    · next hx => exact Version.numberCheck_eq_none_iff.2 (hpiece.resolve_left fun hp => hx ⟨hp, hslot⟩)
  have hmajor : Version.componentCheck text .major upper p.major = none := by
    rw [Version.componentCheck, if_neg fun hx => hx.2 rfl]
    exact Version.numberCheck_eq_none_iff.2 h.major
  simp [Version.partsChecks, hmajor, hcheck, h.minor, h.patch]

/-- Three readable pieces as the parts of an exact version. -/
structure Spell (p : Pieces) (parts : Parts) : Prop where
  wellFormed : p.WellFormed
  readable : p.Readable
  parts_eq : p.parts = parts

end Pieces

namespace Version

variable {t : String} {p : Parts} {v : Version} {e : ReadError} {cs : List Char}

theorem read_eq_exact_iff : read (String.ofList cs) = .ok (exact p) ↔ ∃ q : Pieces, q.Spell p ∧ cs = 'v' :: q.chars := by
  have hplain : (Scalar.text (String.ofList cs)).plain.toList = cs := String.toList_ofList
  constructor
  · intro h
    cases hs : Spelling.ofChars? cs with
    | none =>
      rw [read, hplain, hs] at h
      cases h
    | some s =>
      have hsplit := Spelling.ofChars?_eq_some_iff.1 hs
      rw [read_of_splits (hplain.symm ▸ hsplit)] at h
      obtain ⟨hpass, hversion⟩ := firstError_eq_ok_iff.1 h
      obtain ⟨q, rfl, hq⟩ | ⟨side, q, rfl, -⟩ | ⟨side, q, side', q', rfl, -⟩ := spelling_cases hpass
      · cases hversion
        refine ⟨q, ⟨hsplit.1.1, hq, rfl⟩, hsplit.2.trans ?_⟩
        rw [Spelling.chars_eq, Spelling.boundChars, List.append_nil]
        rfl
      · cases hversion
      · cases hversion
  · rintro ⟨q, ⟨hwell, hread, rfl⟩, rfl⟩
    have hsplit : Spelling.Splits ⟨none, q, none⟩ ('v' :: q.chars) := by
      refine ⟨⟨hwell, by rintro _ ⟨⟩⟩, ?_⟩
      rw [Spelling.chars_eq, Spelling.boundChars, List.append_nil]
      rfl
    rw [read_of_splits (hplain.symm ▸ hsplit), firstError_eq_ok_iff]
    refine ⟨?_, rfl⟩
    simp only [checks, List.forall_mem_append, List.forall_mem_cons]
    exact ⟨⟨⟨rfl, rfl, List.forall_mem_nil _⟩, Pieces.forall_partsChecks_iff.2 hread⟩, if_neg (by simp), List.forall_mem_nil _⟩

theorem readTarget_eq_ok_iff :
    readTarget t = .ok v ↔
      ∃ q p, Pieces.ofTarget? (Text.trim t.toList) = some q ∧ q.Spell p ∧ v = exact p := by
  rw [readTarget]
  cases hq : Pieces.ofTarget? (Text.trim t.toList) with
  | none => exact iff_of_false nofun fun ⟨_, _, h, _⟩ => nomatch h
  | some q =>
    have hwell := (Pieces.ofTarget?_cases hq).1
    simp only [readParts_eq, firstError_map, firstError_eq_ok_iff, Pieces.forall_partsChecks_iff, Option.some.injEq]
    constructor
    · rintro ⟨hread, rfl⟩
      exact ⟨q, q.parts, rfl, ⟨hwell, hread, rfl⟩, rfl⟩
    · rintro ⟨_, _, rfl, ⟨-, hread, rfl⟩, rfl⟩
      exact ⟨hread, rfl⟩

theorem cons_ofList (cs : List Char) : "v" ++ String.ofList cs = String.ofList ('v' :: cs) := by
  rw [← String.toList_inj]
  simp

theorem readTarget_eq_exact_iff :
    readTarget t = .ok (exact p) ↔
      read (String.ofList (Text.trim t.toList)) = .ok (exact p) ∨
        read ("v" ++ String.ofList (Text.trim t.toList) : String) = .ok (exact p) := by
  simp only [readTarget_eq_ok_iff, cons_ofList, read_eq_exact_iff, List.cons.injEq, true_and, exact.injEq]
  generalize Text.trim t.toList = cs
  constructor
  · rintro ⟨q, _, hq, hspell, rfl⟩
    obtain ⟨-, rfl | rfl⟩ := Pieces.ofTarget?_cases hq
    · exact .inl ⟨q, hspell, rfl⟩
    · exact .inr ⟨q, hspell, rfl⟩
  · rintro (⟨q, hspell, rfl⟩ | ⟨q, hspell, rfl⟩)
    · exact ⟨q, p, Pieces.ofTarget?_cons hspell.wellFormed, hspell, rfl⟩
    · have hcut : Pieces.ofTarget? q.chars = some q := by
        rw [Pieces.ofTarget?_of_ne fun q' _ => hspell.readable.chars_ne_cons hspell.wellFormed q'.chars]
        exact Pieces.ofChars?_eq_some_iff.2 ⟨hspell.wellFormed, rfl⟩
      exact ⟨q, p, hcut, hspell, rfl⟩

/-- A target has one of two faults only, unless one of its numbers is too long. -/
theorem readTarget_error_cases (ht : Numeral.RunsFit t.toList) (h : readTarget t = .error e) :
    ∃ cause, e = .fault ⟨t, cause⟩ ∧ (cause = .malformed targetGrammar ∨ ∃ slot, cause = .number slot false) := by
  rw [readTarget] at h
  split at h
  · cases h
    exact ⟨_, rfl, .inl rfl⟩
  · next q hq =>
    have hchars : q.chars <:+: Text.trim t.toList := by
      rcases (Pieces.ofTarget?_cases hq).2 with heq | heq
      · exact heq ▸ (List.suffix_cons _ _).isInfix
      · exact heq ▸ List.infix_rfl
    have hfit {piece : List Char} (hpiece : piece <:+: q.chars) :
        (∀ c ∈ piece, c.isDigit = true) → piece.length ≤ Numeral.maxDigits :=
      ht piece (hpiece.trans (hchars.trans (Text.isInfix_trim _)))
    have hmajor : q.major <:+: q.chars := ⟨[], '.' :: q.minor ++ '.' :: q.patch, by simp [Pieces.chars]⟩
    have hminor : q.minor <:+: q.chars := ⟨q.major ++ ['.'], '.' :: q.patch, by simp [Pieces.chars]⟩
    have hpatch : q.patch <:+: q.chars := ⟨q.major ++ '.' :: q.minor ++ ['.'], [], by simp [Pieces.chars]⟩
    rw [readParts_eq, firstError_map] at h
    have hmem := mem_of_firstError_eq_error h
    simp only [partsChecks, List.mem_cons, List.not_mem_nil, or_false] at hmem
    rcases hmem with hmem | hmem | hmem
    · exact ⟨_, number_of_componentCheck (hfit hmajor) hmem.symm, .inr ⟨_, rfl⟩⟩
    · exact ⟨_, number_of_componentCheck (hfit hminor) hmem.symm, .inr ⟨_, rfl⟩⟩
    · exact ⟨_, number_of_componentCheck (hfit hpatch) hmem.symm, .inr ⟨_, rfl⟩⟩

/-- Reading a target gives what reading the trimmed text gives as an exact version, with or without a `v` in front of
it. Only one of the two is an exact version, blanks around the text make no difference, and any other text is malformed
or has something in the place of a number. -/
theorem readTarget_eq_read (t : String) (ht : Numeral.RunsFit t.toList) :
    let u := String.ofList (Text.trim t.toList)
    (∀ p, readTarget t = .ok (exact p) ↔ read u = .ok (exact p) ∨ read ("v" ++ u : String) = .ok (exact p)) ∧
      (∀ p q, read u = .ok (exact p) → read ("v" ++ u : String) ≠ .ok (exact q)) ∧
      (∀ v, readTarget t = .ok v → ∃ major minor patch, v = exact ⟨.number major, minor, patch⟩) ∧
      (∀ before after : List Char, (∀ c ∈ before, Text.isBlank c = true) → (∀ c ∈ after, Text.isBlank c = true) →
        ∀ v, readTarget (String.ofList (before ++ t.toList ++ after)) = .ok v ↔ readTarget t = .ok v) ∧
      ∀ e, readTarget t = .error e →
        ∃ cause, e = .fault ⟨t, cause⟩ ∧ (cause = .malformed targetGrammar ∨ ∃ slot, cause = .number slot false) := by
  refine ⟨fun p => readTarget_eq_exact_iff, ?_, ?_, ?_, fun e => readTarget_error_cases ht⟩
  · intro p q hp hq
    rw [cons_ofList, read_eq_exact_iff] at hq
    obtain ⟨p', -, hp'⟩ := read_eq_exact_iff.1 hp
    obtain ⟨q', hspell, hq'⟩ := hq
    rw [List.cons.injEq, hp'] at hq'
    exact hspell.readable.chars_ne_cons hspell.wellFormed _ hq'.2.symm
  · intro v hv
    obtain ⟨q, p, -, hspell, rfl⟩ := readTarget_eq_ok_iff.1 hv
    have hmajor := hspell.readable.major_ne_wildcard
    rw [hspell.parts_eq] at hmajor
    obtain ⟨major, minor, patch⟩ := p
    cases major with
    | number n => exact ⟨n, minor, patch, rfl⟩
    | wildcard => exact absurd rfl hmajor
  · intro before after hb ha v
    rw [readTarget_eq_ok_iff, readTarget_eq_ok_iff, String.toList_ofList, Text.trim_between hb ha]

/-- Blanks around `v1.02.x`, which is a range name as it stands, and around `1.02.x`, which becomes one. -/
theorem readTarget_eq_read_blanks :
    Numeral.RunsFit " v1.02.x\n".toList ∧ Numeral.RunsFit "1.02.x\t".toList ∧
      readTarget " v1.02.x\n" = .ok (exact ⟨.number 1, .number 2, .wildcard⟩) ∧
      readTarget "1.02.x\t" = .ok (exact ⟨.number 1, .number 2, .wildcard⟩) := by
  have hv : Numeral.RunsFit " v1.02.x\n".toList := Numeral.runsFit_of_length_le (by decide)
  have hnumber : Numeral.RunsFit "1.02.x\t".toList := Numeral.runsFit_of_length_le (by decide)
  refine ⟨hv, hnumber, ?_, ?_⟩
  · exact ((readTarget_eq_read _ hv).1 _).2 (.inl rfl)
  · exact ((readTarget_eq_read _ hnumber).1 _).2 (.inr rfl)

end Version

end RuntimeRanges
