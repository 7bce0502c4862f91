import RuntimeRanges.Proofs.Range.Comparator
import RuntimeRanges.Proofs.Range.Ends
import RuntimeRanges.Proofs.Range.Pointwise

/-!
Ranges of a single comparator: the sign of an operator with a partial version behind it. A release satisfies such a
range where it lies in the interval of the comparator and not before the origin. The numbers of the partial version are
short where no run of digits in its text is long.
-/

namespace RuntimeRanges

namespace Text

def blankCodes : List Nat :=
  [0x9, 0xA, 0xB, 0xC, 0xD, 0x1C, 0x1D, 0x1E, 0x1F, 0x20, 0x85, 0xA0, 0x1680, 0x2000, 0x2001, 0x2002, 0x2003, 0x2004,
    0x2005, 0x2006, 0x2007, 0x2008, 0x2009, 0x200A, 0x2028, 0x2029, 0x202F, 0x205F, 0x3000]

theorem exists_blankCode {c : Char} (h : isBlank c = true) : ∃ n ∈ blankCodes, c = Char.ofNat n := by
  refine ⟨c.toNat, ?_, (Char.ofNat_toNat c).symm⟩
  simp only [isBlank, Bool.or_eq_true, Bool.and_eq_true, decide_eq_true_eq, beq_iff_eq] at h
  simp only [blankCodes, List.mem_cons, List.not_mem_nil, or_false]
  omega

end Text

namespace Numeral

/-- No run of decimal digits in the text, of whatever script, has more than 4299 of them. -/
def ShortRuns (cs : List Char) : Prop :=
  ∀ run, run <:+: cs → (∀ c ∈ run, Text.isDecimal c = true) → run.length < maxDigits

variable {cs ds : List Char}

theorem ShortRuns.of_infix (h : ShortRuns cs) (hds : ds <:+: cs) : ShortRuns ds :=
  fun run hrun => h run (hrun.trans hds)

theorem ShortRuns.trimEnd (h : ShortRuns cs) : ShortRuns (Text.trimEnd cs) := by
  obtain ⟨after, hcs, -⟩ := Text.exists_eq_trimEnd_append cs
  exact h.of_infix ⟨[], after, hcs.symm⟩

theorem shortRuns_of_length_lt (h : cs.length < maxDigits) : ShortRuns cs :=
  fun _ hrun _ => Nat.lt_of_le_of_lt hrun.length_le h

end Numeral

namespace Range

variable {cs ds rest : List Char} {c : Char}

theorem isBlank_of_isOperandChar (hc : isOperandChar c = true) : Text.isBlank c = false := by
  have hblank : ∀ n ∈ Text.blankCodes, isOperandChar (Char.ofNat n) = false := by decide +kernel
  cases hb : Text.isBlank c with
  | false => rfl
  | true =>
    obtain ⟨n, hn, rfl⟩ := Text.exists_blankCode hb
    rw [hblank n hn] at hc
    cases hc

/-- The signs that an operator can be written with. -/
def Operator.signs : Operator → List String
  | equal => ["", "="]
  | less => ["<"]
  | lessEqual => ["<="]
  | greater => [">"]
  | greaterEqual => [">="]
  | caret => ["^"]
  | tilde => ["~", "~>"]

variable {op : Operator} {sign : String}

theorem takeOperator_sign (hsign : sign ∈ op.signs) (hcs : ∀ c ∈ cs.head?, endsOperator c = false) :
    takeOperator (sign.toList ++ cs) = (op, cs) := by
  have hne {d : Char} (hd : endsOperator d = true) (rest : List Char) : cs ≠ d :: rest := by
    rintro rfl
    rw [hcs d rfl] at hd
    cases hd
  cases op with
  | equal =>
    obtain rfl | rfl : sign = "" ∨ sign = "=" := by simpa [Operator.signs] using hsign
    · cases cs with
      | nil => rfl
      | cons c cs => exact takeOperator_of_not_endsOperator (hcs c rfl) cs
    · rfl
  | less =>
    obtain rfl : sign = "<" := by simpa [Operator.signs] using hsign
    change takeOperator ('<' :: cs) = _
    rw [takeOperator]
    exact hne rfl
  | lessEqual =>
    obtain rfl : sign = "<=" := by simpa [Operator.signs] using hsign
    rfl
  | greater =>
    obtain rfl : sign = ">" := by simpa [Operator.signs] using hsign
    change takeOperator ('>' :: cs) = _
    rw [takeOperator]
    exact hne rfl
  | greaterEqual =>
    obtain rfl : sign = ">=" := by simpa [Operator.signs] using hsign
    rfl
  | caret =>
    obtain rfl : sign = "^" := by simpa [Operator.signs] using hsign
    rfl
  | tilde =>
    obtain rfl | rfl : sign = "~" ∨ sign = "~>" := by simpa [Operator.signs] using hsign
    · change takeOperator ('~' :: cs) = _
      rw [takeOperator]
      exact hne rfl
    · rfl

theorem isBlank_of_endsOperator (hc : endsOperator c = true) : Text.isBlank c = false := by
  obtain rfl | rfl | rfl | rfl | rfl := eq_of_endsOperator hc <;> rfl

theorem mem_sign (hsign : sign ∈ op.signs) (hc : c ∈ sign.toList) : endsOperator c = true := by
  have hall : ∀ s ∈ op.signs, s.toList.all endsOperator = true := by cases op <;> decide
  exact List.all_eq_true.1 (hall sign hsign) c hc

variable {p : Partial} {i : Interval} {r : Release} {release text : String}

theorem readComparator_sign (hsign : sign ∈ op.signs) (hp : Partial.read cs = .ok p) :
    readComparator (sign.toList ++ cs) = p.interval op := by
  have hcs : ∀ c ∈ cs.head?, endsOperator c = false := fun c hc =>
    endsOperator_of_isOperandChar (Partial.isOperandChar_of_read hp c (List.mem_of_mem_head? hc))
  rw [readComparator, takeOperator_sign hsign hcs]
  change (Partial.read cs >>= _) = _
  rw [hp]
  rfl

theorem Partial.read_nil : read [] = .error (.operand []) := rfl

/-- A single comparator is a range of the releases in its interval from the origin on. Blanks behind it do not count. -/
theorem satisfies_sign (hr : readRelease release.toList = .ok r) (hsign : sign ∈ op.signs)
    (hp : Partial.read (Text.trimEnd text.toList) = .ok p) (hi : p.interval op = .ok i) :
    satisfies release (sign ++ text) = .ok (Interval.any.contains r && i.contains r) := by
  obtain ⟨after, htext, hafter⟩ := Text.exists_eq_trimEnd_append text.toList
  generalize Text.trimEnd text.toList = cs at hp htext
  have hoperand := Partial.isOperandChar_of_read hp
  have hne : sign.toList ++ cs ≠ [] := by
    rintro h
    rw [(List.append_eq_nil_iff.1 h).2, Partial.read_nil] at hp
    cases hp
  have hsolid : ∀ c ∈ sign.toList ++ cs, Text.isBlank c = false := by
    intro c hc
    rcases List.mem_append.1 hc with hc | hc
    · exact isBlank_of_endsOperator (mem_sign hsign hc)
    · exact isBlank_of_isOperandChar (hoperand c hc)
  have hbar : ∀ c ∈ (sign ++ text).toList, c ≠ '|' := by
    rintro _ hc rfl
    rw [String.toList_append, htext] at hc
    rcases List.mem_append.1 hc with hc | hc
    · cases mem_sign hsign hc
    rcases List.mem_append.1 hc with hc | hc
    · exact absurd (hoperand _ hc) (by decide +kernel)
    · cases hafter _ hc
  have halternative : readAlternative (sign ++ text).toList = .ok (Interval.any.meet i) := by
    have hbetween := readAlternative_between (List.forall_mem_nil _) hafter hne hsolid
    rw [String.toList_append, htext, ← List.append_assoc, ← List.nil_append (sign.toList ++ cs), hbetween, meetAll,
      readComparator_sign hsign hp, hi]
    rfl
  have hread : read (sign ++ text) = .ok ([Interval.any.meet i].filter fun i => !i.isEmpty) := by
    rw [read, readChars, Text.splitBars_of_noBar hbar, readAlternatives, halternative]
    rfl
  rw [satisfies, hr, hread]
  change Except.ok _ = Except.ok _
  rw [Interval.any_contains_filter, List.any_cons, List.any_nil, Bool.or_false, Interval.contains_meet_eq]

theorem satisfies_sign_of_origin (hr : readRelease release.toList = .ok r) (hany : Interval.any.contains r = true)
    (hp : Partial.read (Text.trimEnd text.toList) = .ok p) (hsign : sign ∈ op.signs) (hi : p.interval op = .ok i) :
    satisfies release (sign ++ text) = .ok (i.contains r) := by
  rw [satisfies_sign hr hsign hp hi, hany, Bool.true_and]

namespace Partial

open Numeral (ShortRuns)

variable {place : Place} {s : Spelling} {n : Nat}

def Short (p : Partial) : Prop :=
  ∀ n ∈ p.numbers, Numeral.Short n

/-- If the place has digits, they are a run in the text. -/
def Place.IsIn (place : Place) (cs : List Char) : Prop :=
  ∀ run, place = .digits run → run <:+: cs ∧ ∀ c ∈ run, Text.isDecimal c = true

theorem Place.IsIn.of_suffix (h : place.IsIn ds) (hds : ds <:+ cs) : place.IsIn cs := by
  intro run hrun
  obtain ⟨hin, hdec⟩ := h run hrun
  exact ⟨hin.trans hds.isInfix, hdec⟩

theorem isIn_wildcard (cs : List Char) : Place.wildcard.IsIn cs := by
  rintro _ ⟨⟩

theorem isIn_of_takePlace? (h : takePlace? cs = some (place, rest)) : place.IsIn cs ∧ rest <:+ cs := by
  cases cs with
  | nil => cases h
  | cons c cs =>
    rw [takePlace?] at h
    split at h
    · cases h
      exact ⟨isIn_wildcard _, List.suffix_cons _ _⟩
    · split at h
      · cases h
        refine ⟨?_, List.dropWhile_suffix _⟩
        rintro _ ⟨⟩
        exact ⟨(List.takeWhile_prefix _).isInfix, List.all_eq_true.1 List.all_takeWhile⟩
      · cases h

theorem isIn_takeFurther (cs : List Char) : (takeFurther cs).1.IsIn cs ∧ (takeFurther cs).2 <:+ cs := by
  rw [takeFurther]
  cases hd : Text.dropStart? ['.'] cs with
  | none => exact ⟨isIn_wildcard _, List.suffix_rfl⟩
  | some ds =>
    have hds : ds <:+ cs := Text.dropStart?_suffix hd
    rw [Option.bind_some]
    cases hp : takePlace? ds with
    | none => exact ⟨isIn_wildcard _, List.suffix_rfl⟩
    | some found =>
      obtain ⟨hin, hrest⟩ := isIn_of_takePlace? hp
      exact ⟨hin.of_suffix hds, hrest.trans hds⟩

theorem isIn_of_ofChars? (h : Spelling.ofChars? cs = some s) : s.major.IsIn cs ∧ s.minor.IsIn cs ∧ s.patch.IsIn cs := by
  have hv := Text.getD_dropStart?_suffix ['v'] cs
  simp only [Spelling.ofChars?, Option.bind_eq_bind] at h
  obtain ⟨⟨major, r⟩, hmajor, h⟩ := Option.bind_eq_some_iff.1 h
  obtain ⟨⟨pre, r₂⟩, -, h⟩ := Option.bind_eq_some_iff.1 h
  obtain ⟨⟨build, r₃⟩, -, h⟩ := Option.bind_eq_some_iff.1 h
  split at h
  · cases h
    obtain ⟨hin, hr⟩ := isIn_of_takePlace? hmajor
    obtain ⟨hminor, hr'⟩ := isIn_takeFurther r
    have hpatch := (isIn_takeFurther (takeFurther r).2).1
    exact ⟨hin.of_suffix hv, hminor.of_suffix (hr.trans hv), hpatch.of_suffix (hr'.trans (hr.trans hv))⟩
  · cases h

theorem short_of_readNumber (hruns : ShortRuns cs) (hin : (Place.digits ds).IsIn cs) (h : readNumber ds = .ok n) :
    Numeral.Short n := by
  obtain ⟨hds, hdec⟩ := hin ds rfl
  have hlen := hruns ds hds hdec
  have hread : Numeral.read ds = .ok n := mapError_eq_ok_iff.1 h
  rw [Numeral.read, if_pos (Nat.le_of_lt hlen)] at hread
  cases hread
  exact Numeral.value_lt (Nat.le_sub_one_of_lt hlen)

theorem short_of_read (hruns : ShortRuns cs) (h : read cs = .ok p) : p.Short := by
  rw [read] at h
  split at h
  · cases h
  · next s hs =>
    obtain ⟨hmajor, hminor, hpatch⟩ := isIn_of_ofChars? hs
    obtain rfl | ⟨as, a, has, ha, rfl⟩ | ⟨as, bs, a, b, ⟨has, hbs⟩, ⟨ha, hb⟩, rfl⟩ |
      ⟨as, bs, ds, a, b, c, r, ⟨has, hbs, hds⟩, ⟨ha, hb, hc⟩, -, rfl⟩ := ofSpelling_cases h
    · exact List.forall_mem_nil _
    · exact List.forall_mem_singleton.2 (short_of_readNumber hruns (has ▸ hmajor) ha)
    · exact List.forall_mem_cons.2 ⟨short_of_readNumber hruns (has ▸ hmajor) ha,
        List.forall_mem_singleton.2 (short_of_readNumber hruns (hbs ▸ hminor) hb)⟩
    · exact List.forall_mem_cons.2 ⟨short_of_readNumber hruns (has ▸ hmajor) ha,
        List.forall_mem_cons.2 ⟨short_of_readNumber hruns (hbs ▸ hminor) hb,
          List.forall_mem_singleton.2 (short_of_readNumber hruns (hds ▸ hpatch) hc)⟩⟩

end Partial

end Range

end RuntimeRanges
