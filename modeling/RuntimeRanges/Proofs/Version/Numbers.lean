import RuntimeRanges.Proofs.Magnitude
import RuntimeRanges.Proofs.Version.RoundTrip

/-!
Range names with short numbers. Reading one of them gives a short version, or a fault: no number has too many digits.
-/

namespace RuntimeRanges

/-- If a piece is a number, it can be read and is short. -/
def ShortPiece (piece : List Char) : Prop :=
  piece.all Char.isDigit = true → piece.length ≤ Numeral.maxDigits ∧ Numeral.Short (Numeral.value piece)

instance : DecidablePred ShortPiece := fun piece =>
  inferInstanceAs (Decidable (piece.all Char.isDigit = true → _))

def Pieces.Short (p : Pieces) : Prop :=
  ShortPiece p.major ∧ ShortPiece p.minor ∧ ShortPiece p.patch

instance : DecidablePred Pieces.Short := fun p =>
  inferInstanceAs (Decidable (ShortPiece p.major ∧ ShortPiece p.minor ∧ ShortPiece p.patch))

def Spelling.Short (s : Spelling) : Prop :=
  s.pieces.Short ∧ ∀ b ∈ s.bound, b.2.Short

instance : DecidablePred Spelling.Short := fun s =>
  inferInstanceAs (Decidable (s.pieces.Short ∧ ∀ b ∈ s.bound, b.2.Short))

def Scalar.ShortName (text : Scalar) : Prop :=
  ∀ s ∈ Spelling.ofChars? text.plain.toList, s.Short

instance : DecidablePred Scalar.ShortName := fun text =>
  inferInstanceAs (Decidable (∀ s ∈ Spelling.ofChars? text.plain.toList, s.Short))

variable {piece : List Char}

theorem ShortPiece.short_ofPiece (h : ShortPiece piece) (hread : piece = ['x'] ∨ IsNumber piece) :
    (Component.ofPiece piece).Short := by
  rw [Component.ofPiece]
  split
  · exact trivial
  · next hx => exact (h (List.all_eq_true.2 (hread.resolve_left hx).1)).2

theorem Pieces.Short.short_parts {p : Pieces} (h : p.Short) (hread : p.Readable) : p.parts.Short :=
  ⟨h.1.short_ofPiece (.inr hread.major), h.2.1.short_ofPiece hread.minor, h.2.2.short_ofPiece hread.patch⟩

namespace Version

variable {v : Version} {s : Spelling} {text : Scalar} {upper : Bool} {slot : Slot} {e : ReadError}

theorem fault_of_operatorCheck {token : OperatorToken} (h : operatorCheck text upper token = some e) :
    ∃ f, e = .fault f := by
  rw [operatorCheck] at h
  split at h <;> cases h
  exact ⟨_, rfl⟩

theorem fault_of_componentCheck (hp : ShortPiece piece) (h : componentCheck text slot upper piece = some e) :
    ∃ f, e = .fault f :=
  ⟨_, number_of_componentCheck (fun hall => (hp (List.all_eq_true.2 hall)).1) h⟩

theorem fault_of_mem_partsChecks {p : Pieces} (hp : p.Short) (h : some e ∈ partsChecks text upper p) :
    ∃ f, e = .fault f := by
  obtain ⟨hmajor, hminor, hpatch⟩ := hp
  simp only [partsChecks, List.mem_cons, List.not_mem_nil, or_false] at h
  obtain h | h | h := h
  · exact fault_of_componentCheck hmajor h.symm
  · exact fault_of_componentCheck hminor h.symm
  · exact fault_of_componentCheck hpatch h.symm

theorem fault_of_limitCheck (h : limitCheck text s = some e) : ∃ f, e = .fault f := by
  rw [limitCheck] at h
  split at h <;> cases h
  exact ⟨_, rfl⟩

theorem fault_of_mem_boundChecks (hs : s.Short) (h : some e ∈ boundChecks text s) : ∃ f, e = .fault f := by
  rw [boundChecks] at h
  split at h
  · cases h
  · next b token p hb =>
    rw [List.mem_append, List.mem_singleton] at h
    rcases h with h | h
    · exact fault_of_mem_partsChecks (hs.2 _ hb) h
    · split at h <;> cases h
      exact ⟨_, rfl⟩

theorem fault_of_mem_checks (hs : s.Short) (h : some e ∈ checks text s) : ∃ f, e = .fault f := by
  simp only [checks, List.mem_append, List.mem_cons, List.not_mem_nil, or_false] at h
  obtain ((h | h) | h) | h | h := h
  · obtain ⟨token, -, h⟩ := Option.bind_eq_some_iff.1 h.symm
    exact fault_of_operatorCheck h
  · obtain ⟨b, -, h⟩ := Option.bind_eq_some_iff.1 h.symm
    exact fault_of_operatorCheck h
  · exact fault_of_mem_partsChecks hs.1 h
  · exact fault_of_limitCheck h.symm
  · exact fault_of_mem_boundChecks hs h

theorem short_of_checks (hs : s.Short) (h : ∀ e ∈ checks text s, e = none) : s.version.Short := by
  obtain ⟨p, rfl, hp⟩ | ⟨side, p, rfl, hp, -⟩ | ⟨side, p, side', p', rfl, hp, hp'⟩ := spelling_cases h
  · exact hs.1.short_parts hp
  · exact hs.1.short_parts hp
  · exact ⟨hs.1.short_parts hp, (hs.2 _ rfl).short_parts hp'⟩

theorem read_cases (h : text.ShortName) :
    (∃ v, read text = .ok v ∧ v.Short) ∨ ∃ f, read text = .error (.fault f) := by
  rw [read]
  cases hs : Spelling.ofChars? text.plain.toList with
  | none => exact .inr ⟨_, rfl⟩
  | some s =>
    have hshort : s.Short := h s hs
    have hread : ofSpelling text s = firstError (checks text s) s.version := ofSpelling_eq s
    cases hfirst : (checks text s).findSome? id with
    | none =>
      have hpass : ∀ e ∈ checks text s, e = none := List.findSome?_eq_none_iff.1 hfirst
      exact .inl ⟨s.version, hread.trans (firstError_eq_ok_iff.2 ⟨hpass, rfl⟩), short_of_checks hshort hpass⟩
    | some e =>
      obtain ⟨o, ho, he⟩ := List.exists_of_findSome?_eq_some hfirst
      obtain rfl : o = some e := he
      obtain ⟨f, rfl⟩ := fault_of_mem_checks hshort ho
      refine .inr ⟨f, hread.trans ?_⟩
      rw [firstError, hfirst]

end Version

end RuntimeRanges
