import RuntimeRanges.Proofs.Release.Reading

/-!
Cutting the text of a release. Each step takes ASCII characters off the front, so that what is left is an end of the text;
and the local part, which is all that is left in the end, is ASCII as well. So a digit of another script, which the
operand of a comparator may have, makes a text no release.
-/

namespace RuntimeRanges

namespace Text

variable {c : Char}

theorem lt_of_isDigit (hc : c.isDigit = true) : c.toNat < 128 :=
  Nat.lt_of_le_of_lt (toNat_of_isDigit hc).2 (by decide)

/-- The decimal digits of ASCII are the first ones, and those of all other scripts come far behind. -/
theorem isDigit_of_isDecimal (hc : isDecimal c = true) (hlt : c.toNat < 128) : c.isDigit = true := by
  obtain ⟨d, hd⟩ := Option.isSome_iff_exists.1 hc
  obtain ⟨start, hstart, -⟩ := Option.map_eq_some_iff.1 hd
  have hrange := List.find?_some hstart
  simp only [Bool.and_eq_true, decide_eq_true_eq] at hrange
  have hfirst : ∀ z ∈ digitZeros, z < 128 → z = 48 := by decide
  have h48 := hfirst start (List.mem_of_find?_eq_some hstart) (by omega)
  rw [Char.isDigit_iff_toNat]
  change 48 ≤ c.toNat ∧ c.toNat ≤ 57
  omega

theorem lt_of_toLower_lt (h : c.toLower.toNat < 128) : c.toNat < 128 := by
  unfold Char.toLower at h
  split at h
  · next hc =>
    have hhigh : c.val.toNat ≤ 90 := hc.2
    exact Nat.lt_of_le_of_lt hhigh (by decide)
  · exact h

end Text

namespace Release

variable {α : Type} {vocabulary : List (String × α)} {a : α} {cs ds rest : List Char} {c : Char}

/-- What follows is left of a text once ASCII characters are taken off its front. -/
abbrev LeavesAscii : List Char → List Char → Prop :=
  Text.Leaves fun c => c.toNat < 128

theorem lt_of_isJoint (hc : isJoint c = true) : c.toNat < 128 := by
  simp only [isJoint, Bool.or_eq_true, beq_iff_eq] at hc
  obtain (rfl | rfl) | rfl := hc <;> decide

theorem leavesAscii_skipJoint (cs : List Char) : LeavesAscii cs (skipJoint cs) := by
  cases cs with
  | nil => exact .refl []
  | cons c cs =>
    rw [skipJoint]
    split
    · next hc => exact (Text.Leaves.refl cs).cons (lt_of_isJoint hc)
    · exact .refl _

theorem leavesAscii_takeDigits (cs : List Char) : LeavesAscii cs (takeDigits cs).2 :=
  .dropWhile (fun _ hc => Text.lt_of_isDigit hc) cs

/-- Whether all words of the vocabulary are ASCII. -/
def asciiWords (vocabulary : List (String × α)) : Bool :=
  vocabulary.all fun w => w.1.toList.all fun c => c.toNat < 128

theorem leavesAscii_of_takeWord? (hv : asciiWords vocabulary = true) (h : takeWord? vocabulary cs = some (a, rest)) :
    LeavesAscii cs rest := by
  obtain ⟨⟨word, meaning⟩, hmem, hword⟩ := List.exists_of_findSome?_eq_some h
  obtain ⟨tail, htail, heq⟩ := Option.map_eq_some_iff.1 hword
  cases heq
  have hascii := List.all_eq_true.1 (List.all_eq_true.1 hv _ hmem)
  exact ⟨word.toList, Text.dropStart?_eq_some_iff.1 htail, fun c hc => of_decide_eq_true (hascii c hc)⟩

theorem leavesAscii_of_takePart? (hv : asciiWords vocabulary = true) (h : takePart? vocabulary cs = some ((a, ds), rest)) :
    LeavesAscii cs rest := by
  simp only [takePart?, Option.bind_eq_bind] at h
  obtain ⟨⟨meaning, tail⟩, htail, h⟩ := Option.bind_eq_some_iff.1 h
  cases h
  have hword := (leavesAscii_skipJoint cs).trans (leavesAscii_of_takeWord? hv htail)
  exact hword.trans ((leavesAscii_skipJoint tail).trans (leavesAscii_takeDigits _))

theorem takePost?_digit {c : Char} (hc : c.isDigit = true) (cs : List Char) :
    takePost? ('-' :: c :: cs) = some (takeDigits (c :: cs)) := by
  rw [takePost?, if_pos hc]

theorem takePost?_word (h : ¬ ∃ c ds, cs = '-' :: c :: ds ∧ c.isDigit = true) :
    takePost? cs = (takePart? postWords cs).map fun p => (p.1.2, p.2) := by
  fun_cases takePost? cs with
  | case1 c ds hc => exact absurd ⟨c, ds, rfl, hc⟩ h
  | case2 => rfl
  | case3 => rfl

theorem leavesAscii_of_takePost? (h : takePost? cs = some (ds, rest)) : LeavesAscii cs rest := by
  by_cases hdigit : ∃ c ds, cs = '-' :: c :: ds ∧ c.isDigit = true
  · obtain ⟨c, ds, rfl, hc⟩ := hdigit
    rw [takePost?_digit hc] at h
    cases h
    exact (leavesAscii_takeDigits (c :: ds)).cons (by decide)
  · rw [takePost?_word hdigit] at h
    obtain ⟨⟨⟨_, _⟩, _⟩, hpart, heq⟩ := Option.map_eq_some_iff.1 h
    cases heq
    exact leavesAscii_of_takePart? (by decide) hpart

theorem leavesAscii_optional {part : Option (α × List Char)} (h : ∀ p ∈ part, LeavesAscii cs p.2) :
    LeavesAscii cs (optional part cs).2 := by
  cases part with
  | none => exact .refl cs
  | some p => exact h p rfl

theorem leavesAscii_optional_takePart? (hv : asciiWords vocabulary = true) (cs : List Char) :
    LeavesAscii cs (optional (takePart? vocabulary cs) cs).2 :=
  leavesAscii_optional fun _ hp => leavesAscii_of_takePart? hv hp

theorem leavesAscii_optional_takePost? (cs : List Char) : LeavesAscii cs (optional (takePost? cs) cs).2 :=
  leavesAscii_optional fun _ hp => leavesAscii_of_takePost? hp

theorem leavesAscii_takeNumbers (cs : List Char) : LeavesAscii cs (takeNumbers cs).2.2 := by
  fun_induction takeNumbers cs with
  | case1 c cs hc run more rest hrest ih =>
    rw [hrest] at ih
    exact (ih.cons (Text.lt_of_isDigit hc)).cons (by decide)
  | case2 => exact .refl _
  | case3 c cs _ hc run more rest hrest ih =>
    rw [hrest] at ih
    exact ih.cons (Text.lt_of_isDigit hc)
  | case4 => exact .refl _
  | case5 => exact .refl _

theorem leavesAscii_takeEpoch (cs : List Char) : LeavesAscii cs (takeEpoch cs).2 := by
  have hdigits := leavesAscii_takeDigits cs
  rw [takeEpoch]
  split
  · exact .refl cs
  · next digits rest _ heq =>
    rw [heq] at hdigits
    exact hdigits.trans ((Text.Leaves.refl rest).cons (by decide))
  · exact .refl cs

theorem lt_of_isLocalChar (hc : isLocalChar c = true) : c.toNat < 128 := by
  rw [isLocalChar, Bool.or_eq_true, Bool.and_eq_true, decide_eq_true_eq, decide_eq_true_eq] at hc
  rcases hc with hc | ⟨-, hc⟩
  · exact Text.lt_of_isDigit hc
  · exact Nat.lt_of_le_of_lt hc (by decide)

theorem ascii_of_localPieces? {pieces : List (List Char)} (h : localPieces? cs = some pieces) :
    ∀ c ∈ cs, c.toNat < 128 := by
  intro c hc
  by_cases hjoint : isJoint c = true
  · exact lt_of_isJoint hjoint
  rw [localPieces?] at h
  split at h
  · next hall =>
    have hmem : c ∈ cs.map fun c => if isJoint c then '.' else c :=
      List.mem_map.2 ⟨c, hc, if_neg hjoint⟩
    have hpoint : c ≠ '.' := by
      rintro rfl
      exact hjoint rfl
    obtain ⟨piece, hpiece, hcp⟩ := Text.exists_mem_splitAt hmem hpoint
    have hp := List.all_eq_true.1 hall piece hpiece
    rw [Bool.and_eq_true] at hp
    exact lt_of_isLocalChar (List.all_eq_true.1 hp.2 c hcp)
  · cases h

theorem ascii_of_takeLocal? {pieces : List (List Char)} (h : takeLocal? cs = some pieces) : ∀ c ∈ cs, c.toNat < 128 := by
  by_cases hplus : ∃ ds, cs = '+' :: ds
  · obtain ⟨ds, rfl⟩ := hplus
    exact List.forall_mem_cons.2 ⟨by decide, ascii_of_localPieces? h⟩
  · cases cs with
    | nil => exact List.forall_mem_nil _
    | cons c cs =>
      rw [takeLocal?] at h
      · cases h
      · exact List.cons_ne_nil c cs
      · rintro ds ⟨⟩
        exact hplus ⟨cs, rfl⟩

/-- Cuts what stands behind the numbers of a release. -/
def Spelling.behind? (epoch : List Char) (numbers : List (List Char)) (cs : List Char) : Option Spelling :=
  let (pre, cs) := optional (takePart? stageWords cs) cs
  let (post, cs) := optional (takePost? cs) cs
  let (dev, cs) := optional (takePart? devWords cs) cs
  (takeLocal? cs).map fun localParts => ⟨epoch, numbers, pre, post, dev.map Prod.snd, localParts⟩

variable {s : Spelling}

theorem asciiWords_stage : asciiWords stageWords = true := by decide

theorem asciiWords_dev : asciiWords devWords = true := by decide

theorem exists_of_behind? {epoch : List Char} {numbers : List (List Char)}
    (h : Spelling.behind? epoch numbers cs = some s) :
    s.epoch = epoch ∧ s.numbers = numbers ∧ ∃ rest, LeavesAscii cs rest ∧ takeLocal? rest = some s.localParts := by
  obtain ⟨pieces, hlocal, rfl⟩ := Option.map_eq_some_iff.1 h
  refine ⟨rfl, rfl, _, ?_, hlocal⟩
  refine (leavesAscii_optional_takePart? asciiWords_stage _).trans ?_
  exact (leavesAscii_optional_takePost? _).trans (leavesAscii_optional_takePart? asciiWords_dev _)

theorem leavesAscii_v (cs : List Char) : LeavesAscii cs ((Text.dropStart? ['v'] cs).getD cs) := by
  cases hd : Text.dropStart? ['v'] cs with
  | none => exact .refl cs
  | some ds => exact ⟨['v'], Text.dropStart?_eq_some_iff.1 hd, List.forall_mem_singleton.2 (by decide)⟩

theorem exists_of_ofChars? (h : Spelling.ofChars? cs = some s) :
    s.epoch = (takeEpoch ((Text.dropStart? ['v'] cs).getD cs)).1 ∧ s.numbers ≠ [] ∧
      ∃ rest, LeavesAscii cs rest ∧ takeLocal? rest = some s.localParts := by
  have hfront := (leavesAscii_v cs).trans ((leavesAscii_takeEpoch _).trans (leavesAscii_takeNumbers _))
  rw [Spelling.ofChars?] at h
  dsimp only at h
  split at h
  · cases h
  · obtain ⟨hepoch, hnumbers, rest, hrest, hlocal⟩ := exists_of_behind? h
    exact ⟨hepoch, hnumbers ▸ List.cons_ne_nil _ _, rest, hfront.trans hrest, hlocal⟩

theorem ascii_of_ofChars? (h : Spelling.ofChars? cs = some s) : ∀ c ∈ cs, c.toNat < 128 := by
  obtain ⟨-, -, rest, hrest, hlocal⟩ := exists_of_ofChars? h
  exact hrest.forall_mem (ascii_of_takeLocal? hlocal)

theorem read_eq_ok_iff {r : Release} :
    read cs = .ok r ↔ ∃ s, Spelling.ofChars? ((Text.trim cs).map Char.toLower) = some s ∧ ofSpelling s = .ok r := by
  rw [read]
  cases Spelling.ofChars? ((Text.trim cs).map Char.toLower) with
  | none =>
    constructor
    · rintro ⟨⟩
    · rintro ⟨_, ⟨⟩, -⟩
  | some s => simp only [Option.some.injEq, exists_eq_left']

theorem ascii_of_read {r : Release} (h : read cs = .ok r) : ∀ c ∈ Text.trim cs, c.toNat < 128 := by
  obtain ⟨s, hs, -⟩ := read_eq_ok_iff.1 h
  exact fun c hc => Text.lt_of_toLower_lt (ascii_of_ofChars? hs _ (List.mem_map_of_mem hc))

end Release

end RuntimeRanges
