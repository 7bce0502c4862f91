import RuntimeRanges.Proofs.Range.Intersection
import RuntimeRanges.Proofs.Range.Leading
import RuntimeRanges.Proofs.Range.Span

/-!
Full versions as ranges. The text of a full version is read in two ways, as a release and as the operand of a comparator,
and both come to the same release but for its build, which is a local part of the one and dropped from the other. So a
full version without a build satisfies itself unless it comes before the origin, where all ranges begin.
-/

namespace RuntimeRanges.Range

variable {rest tag : List Char} {mark : Char}

/-- A tag behind its mark; where there is no tag there is no mark either. -/
def tagChars (mark : Char) (tag : List Char) : List Char :=
  if tag.isEmpty then [] else mark :: tag

theorem eq_mark_of_mem_head? : ∀ c ∈ (tagChars mark tag).head?, c = mark := by
  cases tag with
  | nil => rintro _ ⟨⟩
  | cons c tag => rintro _ ⟨⟩; rfl

theorem eq_mark_of_mem_head?_append {mark' : Char} {tag' : List Char} :
    ∀ c ∈ (tagChars mark tag ++ tagChars mark' tag').head?, c = mark ∨ c = mark' := by
  cases tag with
  | nil => exact fun c hc => .inr (eq_mark_of_mem_head? c hc)
  | cons c tag => rintro _ ⟨⟩; exact .inl rfl

theorem tagChars_eq_nil_iff : tagChars mark tag = [] ↔ tag = [] := by
  cases tag with
  | nil => exact iff_of_true rfl rfl
  | cons c tag => exact iff_of_false (List.cons_ne_nil _ _) (List.cons_ne_nil _ _)

theorem not_mem_tagChars {c : Char} (htag : ∀ c ∈ tag, Partial.isTagChar c = true) (hc : Partial.isTagChar c = false)
    (hmark : c ≠ mark) : c ∉ tagChars mark tag := by
  have hnot : c ∉ tag := by
    intro hm
    rw [htag c hm] at hc
    cases hc
  rw [tagChars]
  split
  · exact List.not_mem_nil
  · exact List.not_mem_cons_of_ne_of_not_mem hmark hnot

def isNumber (run : List Char) : Bool :=
  !run.isEmpty && run.all Text.isDecimal

theorem isNumber_iff {run : List Char} : isNumber run = true ↔ run ≠ [] ∧ ∀ c ∈ run, Text.isDecimal c = true := by
  rw [isNumber, Bool.and_eq_true, Bool.not_eq_true', List.isEmpty_eq_false_iff, List.all_eq_true]

/-- The text of a full version: three numbers, a `v` in front of them or none, and behind them a pre-release and a build,
which are empty if there are none. -/
structure FullText where
  v : Bool
  major : List Char
  minor : List Char
  patch : List Char
  pre : List Char
  build : List Char
  isNumber_major : isNumber major = true := by decide
  isNumber_minor : isNumber minor = true := by decide
  isNumber_patch : isNumber patch = true := by decide
  all_pre : pre.all Partial.isTagChar = true := by decide
  all_build : build.all Partial.isTagChar = true := by decide

namespace FullText

def body (x : FullText) : List Char :=
  Release.joined '.' [x.major, x.minor, x.patch] ++ (tagChars '-' x.pre ++ tagChars '+' x.build)

def chars (x : FullText) : List Char :=
  if x.v then 'v' :: x.body else x.body

theorem isTagChar_pre (x : FullText) : ∀ c ∈ x.pre, Partial.isTagChar c = true :=
  List.all_eq_true.1 x.all_pre

theorem isTagChar_build (x : FullText) : ∀ c ∈ x.build, Partial.isTagChar c = true :=
  List.all_eq_true.1 x.all_build

end FullText

namespace Partial

/-- A tag is taken up to where neither the tag goes on nor, if there is none, its mark stands. -/
theorem takeTag?_tagChars (htag : ∀ c ∈ tag, isTagChar c = true)
    (hrest : ∀ c ∈ rest.head?, isTagChar c = false ∧ c ≠ mark) :
    takeTag? mark (tagChars mark tag ++ rest) = some (tag, rest) := by
  cases tag with
  | nil =>
    have hnone : Text.dropStart? [mark] rest = none :=
      Text.dropStart?_singleton_eq_none fun c hc => (hrest c hc).2
    change takeTag? mark rest = _
    rw [takeTag?, hnone]
  | cons c tag =>
    have hstop : ∀ c ∈ rest.head?, isTagChar c = false := fun c hc => (hrest c hc).1
    have hsome : Text.dropStart? [mark] (mark :: (c :: tag ++ rest)) = some (c :: tag ++ rest) :=
      Text.dropStart?_eq_some_iff.2 rfl
    change takeTag? mark (mark :: (c :: tag ++ rest)) = _
    rw [takeTag?, hsome]
    simp only [Text.takeWhile_append_of_stop htag hstop, Text.dropWhile_append_of_stop htag hstop]
    rfl

variable {x : FullText}

theorem dropStart?_fullText (x : FullText) : (Text.dropStart? ['v'] x.chars).getD x.chars = x.body := by
  rw [FullText.chars]
  split
  · rw [Text.dropStart?_eq_some_iff.2 (show 'v' :: x.body = ['v'] ++ x.body from rfl)]
    rfl
  · have hnone : Text.dropStart? ['v'] x.body = none := by
      apply Text.dropStart?_singleton_eq_none
      rintro c hc rfl
      obtain ⟨hne, hdec⟩ := isNumber_iff.1 x.isNumber_major
      obtain ⟨d, ds, hd⟩ := List.exists_cons_of_ne_nil hne
      rw [FullText.body, hd] at hc
      cases hc
      exact absurd (hdec 'v' (hd ▸ List.mem_cons_self)) (by decide)
    rw [hnone]
    rfl

/-- A full version is cut into its numbers and its pre-release as the operand of a comparator. -/
theorem ofChars?_fullText (x : FullText) :
    Spelling.ofChars? x.chars = some ⟨.digits x.major, .digits x.minor, .digits x.patch, x.pre⟩ := by
  have hpoint (cs : List Char) : ∀ c ∈ ('.' :: cs).head?, Text.isDecimal c = false := by
    rintro _ ⟨⟩
    rfl
  have htags : ∀ c ∈ (tagChars '-' x.pre ++ tagChars '+' x.build).head?, Text.isDecimal c = false := by
    intro c hc
    obtain rfl | rfl := eq_mark_of_mem_head?_append c hc <;> rfl
  obtain ⟨hmajor, hmajor'⟩ := isNumber_iff.1 x.isNumber_major
  obtain ⟨hminor, hminor'⟩ := isNumber_iff.1 x.isNumber_minor
  obtain ⟨hpatch, hpatch'⟩ := isNumber_iff.1 x.isNumber_patch
  have htakeMajor := takePlace?_run hmajor hmajor'
    (hpoint (x.minor ++ '.' :: (x.patch ++ (tagChars '-' x.pre ++ tagChars '+' x.build))))
  have htakeMinor := takeFurther_of_takePlace? (takePlace?_run hminor hminor'
    (hpoint (x.patch ++ (tagChars '-' x.pre ++ tagChars '+' x.build))))
  have htakePatch := takeFurther_of_takePlace? (takePlace?_run hpatch hpatch' htags)
  have hpre : takeTag? '-' (tagChars '-' x.pre ++ tagChars '+' x.build) = some (x.pre, tagChars '+' x.build) := by
    apply takeTag?_tagChars x.isTagChar_pre
    intro c hc
    rw [eq_mark_of_mem_head? c hc]
    decide
  have hbuild : takeTag? '+' (tagChars '+' x.build ++ []) = some (x.build, []) :=
    takeTag?_tagChars x.isTagChar_build nofun
  rw [List.append_nil] at hbuild
  have hbody : x.body = x.major ++ '.' :: (x.minor ++ '.' :: (x.patch ++ (tagChars '-' x.pre ++ tagChars '+' x.build))) := by
    simp [FullText.body, Release.joined]
  rw [Spelling.ofChars?, dropStart?_fullText, hbody, htakeMajor]
  simp only [Option.bind_eq_bind, Option.bind_some, htakeMinor, htakePatch, hpre, hbuild]
  rfl

theorem releaseChars_eq (a b c : Nat) (pre : List Char) :
    releaseChars a b c pre = Release.joined '.' ([a, b, c].map Numeral.digits) ++ tagChars '-' pre := by
  simp [releaseChars, Release.joined, tagChars]

variable {p : Partial}

theorem exists_eq_full_of_read (h : read x.chars = .ok p) :
    ∃ a b c e, p = .full a b c e ∧
      (readNumber x.major = .ok a ∧ readNumber x.minor = .ok b ∧ readNumber x.patch = .ok c) ∧
      readRelease (releaseChars a b c x.pre) = .ok e := by
  rw [read, ofChars?_fullText] at h
  obtain ⟨a, ha, h⟩ := bind_eq_ok_iff.1 h
  obtain ⟨b, hb, h⟩ := bind_eq_ok_iff.1 h
  obtain ⟨c, hc, h⟩ := bind_eq_ok_iff.1 h
  obtain ⟨e, he, h⟩ := bind_eq_ok_iff.1 h
  cases h
  exact ⟨a, b, c, e, rfl, ⟨ha, hb, hc⟩, he⟩

end Partial

variable {x : FullText} {text : String} {is : List Interval} {r : Release} {p : Partial}

theorem exists_partial_of_read (hne : text.toList ≠ []) (hoperand : ∀ c ∈ text.toList, isOperandChar c = true)
    (h : read text = .ok is) : ∃ p, Partial.read text.toList = .ok p := by
  have hsolid : ∀ c ∈ text.toList, Text.isBlank c = false := fun c hc => isBlank_of_isOperandChar (hoperand c hc)
  have hbar : ∀ c ∈ text.toList, c ≠ '|' := by
    rintro _ hc rfl
    exact absurd (hoperand _ hc) (by decide)
  rw [read, readChars, Text.splitBars_of_noBar hbar] at h
  obtain ⟨_, halternatives, -⟩ := map_eq_ok_iff.1 h
  obtain ⟨i, hi, -⟩ := bind_eq_ok_iff.1 halternatives
  have hbetween := readAlternative_between (List.forall_mem_nil _) (List.forall_mem_nil _) hne hsolid
  rw [List.nil_append, List.append_nil] at hbetween
  rw [hbetween] at hi
  obtain ⟨j, hj, -⟩ := bind_eq_ok_iff.1 hi
  have hsign : "" ∈ Operator.equal.signs := List.mem_cons_self
  have hop : takeOperator text.toList = (.equal, text.toList) :=
    takeOperator_sign hsign fun c hc => endsOperator_of_isOperandChar (hoperand c (List.mem_of_mem_head? hc))
  rw [readComparator, hop] at hj
  obtain ⟨p, hp, -⟩ := bind_eq_ok_iff.1 hj
  exact ⟨p, hp⟩

namespace FullText

theorem isOperandChar_of_mem {c : Char} (hc : c ∈ x.chars) : isOperandChar c = true :=
  Partial.isOperandChar_of_ofChars? (Partial.ofChars?_fullText x) c hc

theorem body_subset (x : FullText) : x.body ⊆ x.chars := by
  rw [chars]
  split
  · exact List.subset_cons_self _ _
  · exact List.Subset.refl _

theorem chars_ne_nil (x : FullText) : x.chars ≠ [] := by
  intro h
  have hcut := Partial.ofChars?_fullText x
  rw [h] at hcut
  cases hcut

theorem isBlank_of_mem {c : Char} (hc : c ∈ x.chars) : Text.isBlank c = false :=
  isBlank_of_isOperandChar (isOperandChar_of_mem hc)

theorem isRun_of_read (hr : Release.read x.chars = .ok r) : ∀ run ∈ [x.major, x.minor, x.patch], Release.IsRun run := by
  have hascii : ∀ c ∈ x.chars, c.toNat < 128 := by
    have h := Release.ascii_of_read hr
    rwa [Text.trim_of_noBlank fun c hc => isBlank_of_mem hc] at h
  have hnumber : ∀ run ∈ [x.major, x.minor, x.patch], isNumber run = true := by
    simpa using ⟨x.isNumber_major, x.isNumber_minor, x.isNumber_patch⟩
  intro run hrun
  obtain ⟨hne, hdec⟩ := isNumber_iff.1 (hnumber run hrun)
  refine ⟨hne, fun c hc => Text.isDigit_of_isDecimal (hdec c hc) (hascii c (x.body_subset ?_))⟩
  exact List.mem_append_left _ (Release.subset_joined hrun hc)

theorem read_chars (hmajor : Release.IsRun x.major) : Release.read x.chars = Release.read x.body := by
  have hblank : ∀ c ∈ x.body, Text.isBlank c = false := fun c hc => isBlank_of_mem (x.body_subset hc)
  rw [chars]
  split
  · apply Release.read_v hblank
    obtain ⟨hne, hdigits⟩ := hmajor
    obtain ⟨d, ds, hd⟩ := List.exists_cons_of_ne_nil hne
    intro c hc
    rw [body, hd] at hc
    cases hc
    exact hdigits d (hd ▸ List.mem_cons_self)
  · rfl

theorem readAll_eq {a b c : Nat} (ha : Partial.readNumber x.major = .ok a) (hb : Partial.readNumber x.minor = .ok b)
    (hc : Partial.readNumber x.patch = .ok c) : Release.readAll [x.major, x.minor, x.patch] = .ok [a, b, c] := by
  have hdigits {cs : List Char} {n : Nat} (h : Partial.readNumber cs = .ok n) : Release.readDigits cs = .ok n :=
    mapError_eq_ok_iff.2 (mapError_eq_ok_iff.1 h)
  simp only [Release.readAll, hdigits ha, hdigits hb, hdigits hc]
  rfl

theorem isTail_build (x : FullText) : Release.IsTail (tagChars '+' x.build) :=
  eq_mark_of_mem_head?

/-- A full version is read as the release that its operand has, with its build as the local part. -/
theorem eq_of_read (hr : Release.read x.chars = .ok r) (hp : Partial.read x.chars = .ok p) :
    ∃ a b c e, p = .full a b c e ∧ e.Plain ∧ r = { e with localParts := r.localParts } ∧
      (r.localParts = [] ↔ x.build = []) := by
  obtain ⟨a, b, c, e, rfl, ⟨ha, hb, hc⟩, he⟩ := Partial.exists_eq_full_of_read hp
  have hruns := isRun_of_read hr
  rw [read_chars (hruns _ List.mem_cons_self)] at hr
  have hmem {mark : Char} (hmark : isOperandChar mark = false) : mark ∉ x.chars := by
    intro hm
    rw [isOperandChar_of_mem hm] at hmark
    cases hmark
  have hblank : ∀ c ∈ tagChars '-' x.pre ++ tagChars '+' x.build, Text.isBlank c = false := fun c hc =>
    isBlank_of_mem (x.body_subset (List.mem_append_right _ hc))
  have hepoch : '!' ∉ tagChars '-' x.pre ++ tagChars '+' x.build := fun hm =>
    hmem (by decide) (x.body_subset (List.mem_append_right _ hm))
  have hplus : '+' ∉ tagChars '-' x.pre := not_mem_tagChars x.isTagChar_pre (by decide) (by decide)
  have hnumbers : e.numbers = r.numbers := by
    have hread := Release.readAll_of_read_runs hruns eq_mark_of_mem_head?_append hblank hepoch hr
    rw [readAll_eq ha hb hc] at hread
    rw [(Partial.numbers_of_readRelease x.isTagChar_pre he).2, Except.ok.inj hread.2]
  have hplain := Partial.plain_of_readRelease x.isTagChar_pre he
  -- The text of the operand's release has the numbers written anew, the same pre-release, and no build.
  rw [readRelease_eq_ok_iff, Partial.releaseChars_eq] at he
  obtain ⟨heq, hnil⟩ := Release.eq_of_read_append hruns (Release.isRun_of_mem_map [a, b, c]) eq_mark_of_mem_head? hplus
    x.isTail_build hblank hepoch hr he hnumbers
  exact ⟨a, b, c, e, rfl, hplain, heq, hnil.trans tagChars_eq_nil_iff⟩

end FullText

theorem isLE_compare_local {e : Release} (he : e.Plain) (parts : List LocalPart) :
    (e.compare { e with localParts := parts }).isLE = true := by
  cases parts with
  | nil =>
    have hself : { e with localParts := [] } = e := by rw [← he.localParts]
    rw [hself]
    exact Std.ReflCmp.isLE_rfl
  | cons part parts =>
    rw [he.lt_local]
    rfl

theorem contains_any_iff_ne_lt : Interval.any.contains r = true ↔ r.compare .origin ≠ .lt := by
  have hswap : Release.origin.compare r = (r.compare .origin).swap := Std.OrientedCmp.eq_swap
  rw [contains_any_iff, hswap, Ordering.isLE_swap, Ordering.isGE_iff_ne_lt]

/-- The comparators with a full version and the parts of the releases, divided at that version, that they admit. -/
theorem satisfies_full {release : String} {a b c : Nat} {e : Release} (hr : readRelease release.toList = .ok r)
    (hp : Partial.read (Text.trimEnd text.toList) = .ok (.full a b c e)) :
    satisfies release ("" ++ text) = .ok (Interval.any.contains r && (Interval.only e).contains r) ∧
      satisfies release (">=" ++ text) = .ok (Interval.any.contains r && (Interval.only e).fromStart.contains r) ∧
      satisfies release ("<=" ++ text) = .ok (Interval.any.contains r && (Interval.only e).untilEnd.contains r) ∧
      satisfies release ("<" ++ text) = .ok (Interval.any.contains r && (Interval.only e).ahead.contains r) ∧
      satisfies release (">" ++ text) = .ok (Interval.any.contains r && (Interval.only e).behind.contains r) :=
  ⟨satisfies_sign hr (show "" ∈ Operator.equal.signs from List.mem_cons_self) hp rfl,
    satisfies_sign hr (show ">=" ∈ Operator.greaterEqual.signs from List.mem_cons_self) hp rfl,
    satisfies_sign hr (show "<=" ∈ Operator.lessEqual.signs from List.mem_cons_self) hp rfl,
    satisfies_sign hr (show "<" ∈ Operator.less.signs from List.mem_cons_self) hp rfl,
    satisfies_sign hr (show ">" ∈ Operator.greater.signs from List.mem_cons_self) hp rfl⟩

/-- A full version from the origin on is not before itself, and without a build it is not behind itself either and satisfies
itself. A full version before the origin satisfies no comparator with itself. -/
theorem satisfies_fullText (htext : text.toList = x.chars) (hr : readRelease text.toList = .ok r)
    (his : read text = .ok is) :
    (r.compare .origin = .lt → ∀ sign ∈ ["", ">=", "<=", "<", ">"], satisfies text (sign ++ text) = .ok false) ∧
      (r.compare .origin ≠ .lt →
        satisfies text (">=" ++ text) = .ok true ∧ satisfies text ("<" ++ text) = .ok false ∧
          (x.build = [] → satisfies text text = .ok true ∧ satisfies text ("<=" ++ text) = .ok true ∧
            satisfies text (">" ++ text) = .ok false)) := by
  have hoperand : ∀ c ∈ text.toList, isOperandChar c = true := by
    rw [htext]
    exact fun c hc => FullText.isOperandChar_of_mem hc
  obtain ⟨p, hp⟩ := exists_partial_of_read (htext ▸ x.chars_ne_nil) hoperand his
  have hread : Release.read x.chars = .ok r := htext ▸ readRelease_eq_ok_iff.1 hr
  obtain ⟨a, b, c, e, rfl, hplain, hlocal, hbuild⟩ := FullText.eq_of_read hread (htext ▸ hp)
  have htrim : Text.trimEnd text.toList = text.toList :=
    Text.trimEnd_of_noBlank fun c hc => isBlank_of_isOperandChar (hoperand c hc)
  obtain ⟨hequal, hgreaterEqual, hlessEqual, hless, hgreater⟩ := satisfies_full hr (htrim ▸ hp)
  rw [String.empty_append] at hequal
  constructor
  · intro horigin
    have hany : Interval.any.contains r = false :=
      Bool.eq_false_iff.2 fun h => contains_any_iff_ne_lt.1 h horigin
    simp only [hany, Bool.false_and] at hequal hgreaterEqual hlessEqual hless hgreater
    simp only [List.forall_mem_cons, String.empty_append]
    exact ⟨hequal, hgreaterEqual, hlessEqual, hless, hgreater, List.forall_mem_nil _⟩
  · intro horigin
    have hany : Interval.any.contains r = true := contains_any_iff_ne_lt.2 horigin
    have habove : (Interval.only e).aboveLower r = true := by
      have hle : (e.compare r).isLE = true := hlocal ▸ isLE_compare_local hplain r.localParts
      rw [Interval.aboveLower_eq_true_iff]
      exact (Ordering.isLE_iff_eq_lt_or_eq_eq.1 hle).imp_right fun heq => ⟨heq, rfl⟩
    rw [hany, Bool.true_and, Interval.contains_fromStart, habove] at hgreaterEqual
    rw [hany, Bool.true_and, Interval.contains_ahead hany, habove] at hless
    refine ⟨hgreaterEqual, hless, fun hnone => ?_⟩
    -- Without a build there is no local part that would put the release behind that of the operand.
    have hbelow : (Interval.only e).belowUpper r = true := by
      have hself : r = e := by rw [hlocal, hbuild.2 hnone, ← hplain.localParts]
      rw [Interval.belowUpper_eq_true_iff rfl, hself]
      exact .inr ⟨Std.ReflCmp.compare_self, rfl⟩
    rw [hany, Bool.true_and, Interval.contains, habove, hbelow] at hequal
    rw [hany, Bool.true_and, Interval.contains_untilEnd hany, hbelow] at hlessEqual
    rw [hany, Bool.true_and, Interval.contains_behind, hbelow] at hgreater
    exact ⟨hequal, hlessEqual, hgreater⟩

/-- The range reader writes the numbers anew and the release reader takes a point before the number of a pre-release; the
two still agree. -/
theorem satisfies_fullText_candidate :
    satisfies "v1.02.3-rc.1" "v1.02.3-rc.1" = .ok true ∧ satisfies "v1.02.3-rc.1" ">v1.02.3-rc.1" = .ok false := by
  have htext : "v1.02.3-rc.1".toList = FullText.chars
      { v := true, major := ['1'], minor := ['0', '2'], patch := ['3'], pre := ['r', 'c', '.', '1'], build := [] } := by rfl
  have hr : readRelease "v1.02.3-rc.1".toList = .ok { numbers := [1, 2, 3], pre := some (.candidate, 1) } := by rfl
  obtain ⟨is, his⟩ : ∃ is, read "v1.02.3-rc.1" = .ok is := ⟨_, rfl⟩
  have horigin : Release.compare { numbers := [1, 2, 3], pre := some (.candidate, 1) } .origin ≠ .lt := by
    simp only [Release.compare, Release.origin, Release.ofNumbers, Release.compareNumbers]
    decide
  obtain ⟨-, -, h⟩ := (satisfies_fullText htext hr his).2 horigin
  obtain ⟨hequal, -, hgreater⟩ := h rfl
  exact ⟨hequal, hgreater⟩

/-- The text is that of a full version, and it can be read both as a release and as a range. -/
def IsFullVersion (text : String) : Prop :=
  (∃ x : FullText, text.toList = x.chars) ∧ (∃ r, readRelease text.toList = .ok r) ∧ ∃ is, read text = .ok is

/-- A pre-release of the origin comes before it, where no range admits anything; and a build is a local part of the
release, which comes behind the operand that it was dropped from. -/
theorem not_satisfies_itself :
    (IsFullVersion "0.0.0-alpha" ∧ satisfies "0.0.0-alpha" "0.0.0-alpha" = .ok false) ∧
      IsFullVersion "1.2.3+build" ∧ satisfies "1.2.3+build" "1.2.3+build" = .ok false := by
  have halpha : "0.0.0-alpha".toList = FullText.chars
      { v := false, major := ['0'], minor := ['0'], patch := ['0'], pre := "alpha".toList, build := [] } := by rfl
  have hbuild : "1.2.3+build".toList = FullText.chars
      { v := false, major := ['1'], minor := ['2'], patch := ['3'], pre := [], build := "build".toList } := by rfl
  have hbefore : satisfies "0.0.0-alpha" "0.0.0-alpha" = .ok false := by
    have hr : readRelease "0.0.0-alpha".toList = .ok { numbers := [0, 0, 0], pre := some (.alpha, 0) } := by rfl
    have hp : Partial.read (Text.trimEnd "0.0.0-alpha".toList) =
        .ok (.full 0 0 0 { numbers := [0, 0, 0], pre := some (.alpha, 0) }) := by rfl
    have hany : Interval.any.contains { numbers := [0, 0, 0], pre := some (.alpha, 0) } = false := by
      simp only [Interval.any, Interval.contains, Interval.aboveLower, Release.compare, Release.origin,
        Release.ofNumbers, Release.compareNumbers_eq_compareLex]
      rfl
    have hfull := (satisfies_full hr hp).1
    rwa [hany, Bool.false_and] at hfull
  have hdropped : satisfies "1.2.3+build" "1.2.3+build" = .ok false := by
    have hr : readRelease "1.2.3+build".toList =
        .ok { numbers := [1, 2, 3], localParts := [.text "build".toList] } := by rfl
    have hp : Partial.read (Text.trimEnd "1.2.3+build".toList) = .ok (.full 1 2 3 { numbers := [1, 2, 3] }) := by rfl
    have honly : (Interval.only { numbers := [1, 2, 3] }).contains
        { numbers := [1, 2, 3], localParts := [.text "build".toList] } = false := by
      simp only [Interval.only, Interval.contains, Interval.aboveLower, Interval.belowUpper, Release.compare,
        Release.compareNumbers_eq_compareLex]
      rfl
    have hfull := (satisfies_full hr hp).1
    rwa [honly, Bool.and_false] at hfull
  exact ⟨⟨⟨⟨_, halpha⟩, ⟨_, rfl⟩, ⟨_, rfl⟩⟩, hbefore⟩, ⟨⟨_, hbuild⟩, ⟨_, rfl⟩, ⟨_, rfl⟩⟩, hdropped⟩

end RuntimeRanges.Range
