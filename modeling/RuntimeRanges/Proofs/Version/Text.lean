import RuntimeRanges.Proofs.Range.Partial
import RuntimeRanges.Proofs.Version.Checks

/-!
The text of a version whose numbers can be written. It is split in the way in which the version is spelled, and read as
the version itself unless a major component is the wildcard or the version is `<=v0.0.0`.
-/

namespace RuntimeRanges

def Component.Writable : Component → Prop
  | number n => Numeral.Writable n
  | wildcard => True

instance (comp : Component) : Decidable comp.Writable :=
  match comp with
  | .number n => inferInstanceAs (Decidable (Numeral.Writable n))
  | .wildcard => inferInstanceAs (Decidable True)

def Parts.Writable (p : Parts) : Prop :=
  p.major.Writable ∧ p.minor.Writable ∧ p.patch.Writable

instance (p : Parts) : Decidable p.Writable :=
  inferInstanceAs (Decidable (_ ∧ _))

namespace Version

/-- All numbers of the version and of its second bound can be written. -/
def Writable : Version → Prop
  | exact p => p.Writable
  | limit l => l.parts.Writable
  | pair l u => l.parts.Writable ∧ u.parts.Writable

instance (v : Version) : Decidable v.Writable :=
  match v with
  | exact p => inferInstanceAs (Decidable p.Writable)
  | limit l => inferInstanceAs (Decidable l.parts.Writable)
  | pair l u => inferInstanceAs (Decidable (l.parts.Writable ∧ u.parts.Writable))

/-- The limit that is refused: it admits nothing but the origin. -/
def zeroLimit : Version :=
  limit ⟨.atMost, .ofNumbers 0 0 0⟩

/-- The versions that a text can be read as: major components are numbers, and `<=v0.0.0` is not one of them. -/
structure Readable (v : Version) : Prop where
  major : v.parts.major ≠ .wildcard
  boundMajor : ∀ u ∈ v.second?, u.parts.major ≠ .wildcard
  ne_zeroLimit : v ≠ zeroLimit

instance (v : Version) : Decidable v.Readable :=
  decidable_of_iff
    (v.parts.major ≠ .wildcard ∧ (∀ u ∈ v.second?, u.parts.major ≠ .wildcard) ∧ v ≠ zeroLimit)
    ⟨fun ⟨hm, hb, hz⟩ => ⟨hm, hb, hz⟩, fun ⟨hm, hb, hz⟩ => ⟨hm, hb, hz⟩⟩

/-- What the reading of a version's own text stumbles on, if the version is not readable. -/
def obstacle (v : Version) : Cause :=
  if v.parts.major = .wildcard then .number .major false
  else if ∃ u ∈ v.second?, u.parts.major = .wildcard then .number .major true
  else .nonsensical

end Version

/-- The operator that is written for a side. -/
def Side.token : Side → OperatorToken
  | atLeast => .greaterEqual
  | atMost => .lessEqual

theorem Side.chars_token (side : Side) : side.token.chars = side.chars := by
  cases side <;> rfl

theorem Side.pointsTo_token (side : Side) : side.token.pointsTo = side := by
  cases side <;> rfl

theorem Component.isPiece_chars (comp : Component) : IsPiece comp.chars := by
  refine ⟨comp.chars_ne_nil, ?_⟩
  intro c hc
  obtain hdigit | rfl := Component.mem_chars hc
  · rw [isPieceChar, Text.isBlank_of_isDigit hdigit, bne_iff_ne.2 (Text.ne_of_isDigit hdigit rfl),
      bne_iff_ne.2 (Text.ne_of_isDigit hdigit rfl)]
    rfl
  · rfl

theorem Component.ofPiece_chars (comp : Component) : ofPiece comp.chars = comp := by
  cases comp with
  | wildcard => rfl
  | number n =>
    have hx : Numeral.digits n ≠ ['x'] := by
      intro h
      have hdigit : ('x' : Char).isDigit = true :=
        Numeral.isDigit_of_mem_digits (n := n) (by rw [h]; exact List.mem_cons_self)
      cases hdigit
    rw [chars, ofPiece, if_neg hx, Numeral.value_digits]

def Parts.pieces (p : Parts) : Pieces :=
  ⟨p.major.chars, p.minor.chars, p.patch.chars⟩

theorem Parts.wellFormed_pieces (p : Parts) : p.pieces.WellFormed :=
  ⟨p.major.isPiece_chars, p.minor.isPiece_chars, p.patch.isPiece_chars⟩

theorem Parts.parts_pieces (p : Parts) : p.pieces.parts = p := by
  rw [Pieces.parts, pieces, Component.ofPiece_chars, Component.ofPiece_chars, Component.ofPiece_chars]

namespace Version

variable {v : Version} {text : Scalar} {upper : Bool}

/-- The spelling that a version is written with. -/
def spelling : Version → Spelling
  | exact p => ⟨none, p.pieces, none⟩
  | limit l => ⟨some l.side.token, l.parts.pieces, none⟩
  | pair l u => ⟨some l.side.token, l.parts.pieces, some (u.side.token, u.parts.pieces)⟩

theorem chars_spelling (v : Version) : v.spelling.chars = v.chars := by
  have hlimit (l : Limit) : l.side.token.chars ++ 'v' :: l.parts.pieces.chars = l.chars := by
    rw [Side.chars_token]
    rfl
  cases v with
  | exact p => exact List.append_nil _
  | limit l => exact (List.append_nil _).trans (hlimit l)
  | pair l u =>
    change (l.side.token.chars ++ 'v' :: l.parts.pieces.chars) ++
      '_' :: (u.side.token.chars ++ 'v' :: u.parts.pieces.chars) = l.chars ++ '_' :: u.chars
    rw [hlimit, hlimit]

theorem splits_spelling (v : Version) : v.spelling.Splits (Scalar.text v.text).plain.toList := by
  refine ⟨?_, ?_⟩
  · cases v with
    | exact p => exact ⟨p.wellFormed_pieces, by rintro b ⟨⟩⟩
    | limit l => exact ⟨l.parts.wellFormed_pieces, by rintro b ⟨⟩⟩
    | pair l u => exact ⟨l.parts.wellFormed_pieces, by rintro b ⟨⟩; exact u.parts.wellFormed_pieces⟩
  · rw [chars_spelling]
    exact String.toList_ofList

theorem version_spelling (v : Version) : v.spelling.version = v := by
  cases v with
  | exact p => exact congrArg exact p.parts_pieces
  | limit l =>
    change limit ⟨l.side.token.pointsTo, l.parts.pieces.parts⟩ = _
    rw [Side.pointsTo_token, Parts.parts_pieces]
  | pair l u =>
    change pair ⟨l.side.token.pointsTo, l.parts.pieces.parts⟩ ⟨u.side.token.pointsTo, u.parts.pieces.parts⟩ = _
    rw [Side.pointsTo_token, Side.pointsTo_token, Parts.parts_pieces, Parts.parts_pieces]

theorem operatorCheck_token (side : Side) : operatorCheck text upper side.token = none := by
  cases side <;> rfl

theorem componentCheck_chars {comp : Component} {slot : Slot} (hw : comp.Writable)
    (h : slot = .major → comp ≠ .wildcard) : componentCheck text slot upper comp.chars = none := by
  rw [componentCheck]
  cases comp with
  | wildcard => rw [if_pos ⟨rfl, fun hslot => h hslot rfl⟩]
  | number n =>
    split
    · rfl
    · exact numberCheck_eq_none_iff.2
        ⟨fun c => Numeral.isDigit_of_mem_digits, Numeral.length_digits_le_maxDigits_iff.2 hw⟩

theorem partsChecks_pieces {p : Parts} (hp : p.Writable) :
    partsChecks text upper p.pieces =
      [if p.major = .wildcard then some (.fault ⟨text, .number .major upper⟩) else none, none, none] := by
  obtain ⟨hmajor, hminor, hpatch⟩ := hp
  rw [partsChecks, Parts.pieces, componentCheck_chars hminor (by simp), componentCheck_chars hpatch (by simp)]
  congr 1
  split
  · next hx => rw [hx]; rfl
  · next hx => exact componentCheck_chars hmajor fun _ => hx

theorem operatorChecks_spelling (v : Version) :
    v.spelling.operator.bind (operatorCheck text false) = none ∧
      v.spelling.bound.bind (operatorCheck text true ·.1) = none := by
  cases v with
  | exact p => exact ⟨rfl, rfl⟩
  | limit l => exact ⟨operatorCheck_token l.side, rfl⟩
  | pair l u => exact ⟨operatorCheck_token l.side, operatorCheck_token u.side⟩

theorem partsChecks_spelling (hv : v.Writable) :
    partsChecks text false v.spelling.pieces =
      [if v.parts.major = .wildcard then some (.fault ⟨text, .number .major false⟩) else none, none, none] := by
  cases v with
  | exact p => exact partsChecks_pieces hv
  | limit l => exact partsChecks_pieces hv
  | pair l u => exact partsChecks_pieces hv.1

theorem limitCheck_spelling (v : Version) :
    limitCheck text v.spelling = if v = zeroLimit then some (.fault ⟨text, .nonsensical⟩) else none := by
  cases v with
  | exact p =>
    rw [if_neg nofun]
    exact if_neg nofun
  | pair l u =>
    rw [if_neg nofun]
    exact if_neg nofun
  | limit l =>
    obtain ⟨side, p⟩ := l
    have hside : some side.token = some .lessEqual ↔ side = .atMost := by cases side <;> simp [Side.token]
    simp [limitCheck, spelling, hside, Parts.parts_pieces, zeroLimit]

theorem findSome?_boundChecks_spelling (hv : v.Writable) :
    (boundChecks text v.spelling).findSome? id =
      if ∃ u ∈ v.second?, u.parts.major = .wildcard then some (.fault ⟨text, .number .major true⟩) else none := by
  cases v with
  | exact p => exact (if_neg nofun).symm
  | limit l => exact (if_neg nofun).symm
  | pair l u =>
    have hu : (∃ u' ∈ (pair l u).second?, u'.parts.major = .wildcard) ↔ u.parts.major = .wildcard := by
      simp [second?]
    change (partsChecks text true u.parts.pieces ++ [none]).findSome? id = _
    simp only [partsChecks_pieces hv.2, hu]
    split <;> rfl

theorem read_text_eq (hv : v.Writable) :
    read v.text =
      firstError
        [ if v.parts.major = .wildcard then some (.fault ⟨v.text, .number .major false⟩) else none,
          if v = zeroLimit then some (.fault ⟨v.text, .nonsensical⟩) else none,
          if ∃ u ∈ v.second?, u.parts.major = .wildcard then some (.fault ⟨v.text, .number .major true⟩) else none ]
        v := by
  have hkeep (m l : Option ReadError) (es : List (Option ReadError)) :
      firstError ([none, none] ++ [m, none, none] ++ l :: es) v = firstError [m, l, es.findSome? id] v := by
    cases m <;> cases l <;> cases h : es.findSome? id <;> simp [firstError, h]
  rw [read_of_splits v.splits_spelling, version_spelling, checks, (operatorChecks_spelling v).1,
    (operatorChecks_spelling v).2, partsChecks_spelling hv, limitCheck_spelling, hkeep,
    findSome?_boundChecks_spelling hv]

theorem read_text_eq_ok_iff (hv : v.Writable) : read v.text = .ok v ↔ v.Readable := by
  rw [read_text_eq hv, firstError_eq_ok_iff, and_iff_left rfl]
  simp only [List.forall_mem_cons, ite_eq_right_iff, reduceCtorEq, imp_false]
  constructor
  · rintro ⟨hmajor, hzero, hbound, -⟩
    exact ⟨hmajor, fun u hu h => hbound ⟨u, hu, h⟩, hzero⟩
  · rintro ⟨hmajor, hbound, hzero⟩
    refine ⟨hmajor, hzero, ?_, List.forall_mem_nil _⟩
    rintro ⟨u, hu, h⟩
    exact hbound u hu h

theorem read_text_of_not_readable (hv : v.Writable) (h : ¬ v.Readable) :
    read v.text = .error (.fault ⟨v.text, v.obstacle⟩) := by
  rw [read_text_eq hv, obstacle]
  by_cases hmajor : v.parts.major = .wildcard
  · rw [if_pos hmajor, if_pos hmajor]
    rfl
  rw [if_neg hmajor, if_neg hmajor]
  by_cases hbound : ∃ u ∈ v.second?, u.parts.major = .wildcard
  · have hzero : v ≠ zeroLimit := by
      rintro rfl
      obtain ⟨u, ⟨⟩, -⟩ := hbound
    rw [if_pos hbound, if_pos hbound, if_neg hzero]
    rfl
  · have hzero : v = zeroLimit := Classical.byContradiction fun hne =>
      h ⟨hmajor, fun u hu hx => hbound ⟨u, hu, hx⟩, hne⟩
    rw [if_neg hbound, if_pos hzero, if_neg hbound]
    rfl

end Version

end RuntimeRanges
