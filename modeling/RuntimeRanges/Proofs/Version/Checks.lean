import RuntimeRanges.Version.Reader
import RuntimeRanges.Proofs.Outcome
import RuntimeRanges.Proofs.Version.Spelling

/-!
Reading a range name is a list of checks on the one way in which its text can be split: the first check that fails
decides which error there is, and where none fails the version has the operators and the components of the split.
-/

namespace RuntimeRanges

/-- The side that an operator points to, also one that is not admitted. -/
def OperatorToken.pointsTo : OperatorToken → Side
  | less | lessEqual => .atMost
  | greater | greaterEqual => .atLeast

/-- ASCII digits of a number that can be read: there are not too many of them. -/
def IsNumber (piece : List Char) : Prop :=
  (∀ c ∈ piece, c.isDigit = true) ∧ piece.length ≤ Numeral.maxDigits

def Component.ofPiece (piece : List Char) : Component :=
  if piece = ['x'] then .wildcard else .number (Numeral.value piece)

def Pieces.parts (p : Pieces) : Parts :=
  ⟨.ofPiece p.major, .ofPiece p.minor, .ofPiece p.patch⟩

def Spelling.version (s : Spelling) : Version :=
  match s.operator, s.bound with
  | some token, some (token', p) => .pair ⟨token.pointsTo, s.pieces.parts⟩ ⟨token'.pointsTo, p.parts⟩
  | operator, _ => .single (operator.map OperatorToken.pointsTo) s.pieces.parts

namespace Version

variable {text : Scalar} {upper : Bool} {slot : Slot} {piece : List Char}

/-- The operators `<` and `>` are refused. -/
def operatorCheck (text : Scalar) (upper : Bool) (token : OperatorToken) : Option ReadError :=
  if token = .less ∨ token = .greater then some (.fault ⟨text, .operator token upper⟩) else none

/-- A number has ASCII digits only, and not too many. -/
def numberCheck (text : Scalar) (slot : Slot) (upper : Bool) (piece : List Char) : Option ReadError :=
  if ¬ piece.all Char.isDigit then some (.fault ⟨text, .number slot upper⟩)
  else if Numeral.maxDigits < piece.length then some (.numeral (.reading piece.length))
  else none

/-- A component is a number, or a wildcard unless it is the major one. -/
def componentCheck (text : Scalar) (slot : Slot) (upper : Bool) (piece : List Char) : Option ReadError :=
  if piece = ['x'] ∧ slot ≠ .major then none else numberCheck text slot upper piece

def partsChecks (text : Scalar) (upper : Bool) (p : Pieces) : List (Option ReadError) :=
  [componentCheck text .major upper p.major, componentCheck text .minor upper p.minor,
    componentCheck text .patch upper p.patch]

/-- Without a bound `<=` does not go with three zeros. -/
def limitCheck (text : Scalar) (s : Spelling) : Option ReadError :=
  if s.bound = none ∧ s.operator = some .lessEqual ∧ s.pieces.parts = .ofNumbers 0 0 0 then
    some (.fault ⟨text, .nonsensical⟩)
  else none

def boundChecks (text : Scalar) (s : Spelling) : List (Option ReadError) :=
  match s.bound with
  | none => []
  | some (_, p) =>
    partsChecks text true p ++ [if s.operator = none then some (.fault ⟨text, .malformed grammar⟩) else none]

/-- All checks on a split text, in order. -/
def checks (text : Scalar) (s : Spelling) : List (Option ReadError) :=
  [s.operator.bind (operatorCheck text false), s.bound.bind (operatorCheck text true ·.1)] ++
    partsChecks text false s.pieces ++ limitCheck text s :: boundChecks text s

theorem numberCheck_eq_none_iff : numberCheck text slot upper piece = none ↔ IsNumber piece := by
  rw [numberCheck, IsNumber, ← List.all_eq_true]
  by_cases hall : piece.all Char.isDigit = true
  · rw [if_neg (not_not_intro hall), and_iff_right hall]
    split
    · next hlt => exact iff_of_false nofun (Nat.not_le.2 hlt)
    · next hle => exact iff_of_true rfl (Nat.not_lt.1 hle)
  · rw [if_pos hall]
    exact iff_of_false nofun fun h => hall h.1

theorem number_of_componentCheck {e : ReadError}
    (hlen : (∀ c ∈ piece, c.isDigit = true) → piece.length ≤ Numeral.maxDigits)
    (h : componentCheck text slot upper piece = some e) : e = .fault ⟨text, .number slot upper⟩ := by
  rw [componentCheck] at h
  split at h
  · cases h
  · rw [numberCheck] at h
    split at h
    · exact (Option.some.inj h).symm
    · next hall =>
      rw [if_neg (Nat.not_lt.2 (hlen (List.all_eq_true.1 (Classical.not_not.1 hall))))] at h
      cases h

theorem readSide_eq (token : OperatorToken) :
    readSide text upper token = firstError [operatorCheck text upper token] token.pointsTo := by
  cases token <;> rfl

theorem readFirstSide_eq (operator : Option OperatorToken) :
    readFirstSide text operator =
      firstError [operator.bind (operatorCheck text false)] (operator.map OperatorToken.pointsTo) := by
  cases operator with
  | none => rfl
  | some token => rw [readFirstSide, readSide_eq, firstError_map]; rfl

theorem readBoundSide_eq (bound : Option (OperatorToken × Pieces)) :
    readBoundSide text bound =
      firstError [bound.bind (operatorCheck text true ·.1)] (bound.map fun u => (u.1.pointsTo, u.2)) := by
  cases bound with
  | none => rfl
  | some u =>
    obtain ⟨token, p⟩ := u
    rw [readBoundSide, readSide_eq, firstError_map]
    rfl

theorem readNumber_eq :
    readNumber text slot upper piece =
      firstError [numberCheck text slot upper piece] (.number (Numeral.value piece)) := by
  rw [readNumber, numberCheck]
  by_cases hall : piece.all Char.isDigit = true
  · rw [if_pos hall, if_neg (not_not_intro hall), Numeral.read]
    by_cases hlen : piece.length ≤ Numeral.maxDigits
    · rw [if_pos hlen, if_neg (Nat.not_lt.2 hlen)]
      rfl
    · rw [if_neg hlen, if_pos (Nat.not_le.1 hlen)]
      rfl
  · rw [if_neg hall, if_pos hall]
    rfl

theorem readComponent_eq (hslot : slot ≠ .major) :
    readComponent text slot upper piece = firstError [componentCheck text slot upper piece] (.ofPiece piece) := by
  rw [readComponent, componentCheck, Component.ofPiece]
  by_cases hx : piece = ['x']
  · rw [if_pos hx, if_pos ⟨hx, hslot⟩, if_pos hx]
    rfl
  · rw [if_neg hx, if_neg (fun h => hx h.1), if_neg hx, readNumber_eq]

theorem readMajor_eq :
    readNumber text .major upper piece = firstError [componentCheck text .major upper piece] (.ofPiece piece) := by
  rw [readNumber_eq, componentCheck, if_neg (fun h => h.2 rfl), Component.ofPiece]
  by_cases hx : piece = ['x']
  · subst hx
    rfl
  · rw [if_neg hx]

theorem readParts_eq (p : Pieces) : readParts text upper p = firstError (partsChecks text upper p) p.parts := by
  rw [readParts, readMajor_eq]
  apply firstError_bind
  intro _
  rw [readComponent_eq (by decide)]
  apply firstError_bind
  intro _
  rw [readComponent_eq (by decide)]
  apply firstError_bind
  intro _
  rfl

/-- The text of a spelling is read check by check. -/
theorem ofSpelling_eq (s : Spelling) : ofSpelling text s = firstError (checks text s) s.version := by
  obtain ⟨operator, pieces, bound⟩ := s
  rw [ofSpelling, readFirstSide_eq, readBoundSide_eq, readParts_eq]
  apply firstError_bind
  intro hop
  apply firstError_bind
  intro _
  apply firstError_bind
  intro _
  cases bound with
  | none =>
    -- The operator has passed its check, so that only `<=` points down.
    have hle : operator.map OperatorToken.pointsTo = some .atMost ↔ operator = some .lessEqual := by
      have hadmitted := hop _ List.mem_cons_self
      cases operator with
      | none => simp
      | some token =>
        cases token with
        | less | greater => cases hadmitted
        | lessEqual | greaterEqual => simp [OperatorToken.pointsTo]
    simp only [Option.map_none, hle, limitCheck, true_and]
    split
    · rfl
    · cases operator <;> rfl
  | some u =>
    obtain ⟨token, p⟩ := u
    have hlimit : limitCheck text ⟨operator, pieces, some (token, p)⟩ = none := if_neg (by simp)
    rw [hlimit]
    simp only [Option.map_some, readParts_eq]
    apply firstError_bind
    intro _
    cases operator <;> rfl

theorem read_of_noSplit (h : ∀ s : Spelling, ¬ s.Splits text.plain.toList) :
    read text = .error (.fault ⟨text, .malformed grammar⟩) := by
  have hcut : Spelling.ofChars? text.plain.toList = none :=
    Option.eq_none_iff_forall_ne_some.2 fun s hs => h s (Spelling.ofChars?_eq_some_iff.1 hs)
  rw [read, hcut]

theorem read_of_splits {s : Spelling} (h : s.Splits text.plain.toList) :
    read text = firstError (checks text s) s.version := by
  rw [read, Spelling.ofChars?_eq_some_iff.2 h]
  exact ofSpelling_eq s

/-- A text is split in one way at most, and not at all if it has a blank anywhere. Without a split it is malformed;
otherwise the first check that fails decides, and where none does the version is the one that is spelled. -/
theorem read_eq_firstError (text : Scalar) :
    ((∃ c ∈ text.plain.toList, Text.isBlank c = true) → ∀ s : Spelling, ¬ s.Splits text.plain.toList) ∧
      ((∀ s : Spelling, ¬ s.Splits text.plain.toList) →
        read text = .error (.fault ⟨text, .malformed grammar⟩)) ∧
      ∀ s : Spelling, s.Splits text.plain.toList →
        (∀ s' : Spelling, s'.Splits text.plain.toList → s' = s) ∧
          read text = firstError (checks text s) s.version := by
  refine ⟨?_, read_of_noSplit, fun s hs => ⟨fun s' hs' => hs.unique hs', read_of_splits hs⟩⟩
  rintro ⟨c, hc, hblank⟩ s hs
  rw [hs.isBlank_of_mem hc] at hblank
  cases hblank

/-- A name with several faults: the operator of the bound comes before the numbers. -/
theorem read_eq_firstError_faults :
    read ">=vx.1a.0_<v1.2.x" = .error (.fault ⟨">=vx.1a.0_<v1.2.x", .operator .less true⟩) := by
  have hs : Spelling.Splits ⟨some .greaterEqual, ⟨['x'], ['1', 'a'], ['0']⟩, some (.less, ⟨['1'], ['2'], ['x']⟩)⟩
      (Scalar.text ">=vx.1a.0_<v1.2.x").plain.toList := by
    decide +kernel
  rw [((read_eq_firstError ">=vx.1a.0_<v1.2.x").2.2 _ hs).2]
  rfl

end Version

end RuntimeRanges
