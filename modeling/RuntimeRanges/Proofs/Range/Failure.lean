import RuntimeRanges.Proofs.Interval.Meet
import RuntimeRanges.Proofs.Range.Leading
import RuntimeRanges.Proofs.Range.Span
import RuntimeRanges.Proofs.Release.Runs

/-!
How reading a range fails. A text without long runs of digits is refused only for how it is written: each run of digits
that is read is a run in the text, however the text is cut into alternatives, comparators and places. And what is read
is a list of well-formed intervals.
-/

namespace RuntimeRanges

namespace Interval

/-- What can be relied on for the intervals of a range: they are not empty, begin at the origin or later, their ends
have neither an epoch nor a local part, and the ends are in order. -/
structure WellFormed (i : Interval) : Prop where
  isEmpty : i.isEmpty = false
  origin_le : (Release.origin.compare i.lower).isLE = true
  plainEnds : i.PlainEnds
  upper : ∀ u ∈ i.upper, i.lower.compare u = .lt ∨ i.lower.compare u = .eq ∧ i.lowerIn = true ∧ i.upperIn = true

variable {i j : Interval} {r : Release}

theorem Within.isLE_lower (h : i.Within j) (hr : (r.compare j.lower).isLE = true) :
    (r.compare i.lower).isLE = true := by
  have hle : (j.lower.compare i.lower).isLE = true := by
    rw [Ordering.isLE_iff_eq_lt_or_eq_eq]
    exact (Cut.le_iff.1 h.lower).imp_right And.left
  exact Std.TransCmp.isLE_trans hr hle

end Interval

namespace Range

open Numeral (ShortRuns)
open Release (RunIn)

variable {α β : Type} {x : Except ReadError α} {cs ds run : List Char}

/-- Whether the error is about how a text is written, and not about how many digits a number has. -/
def ReadError.IsSyntax : ReadError → Prop
  | release _ => True
  | operand _ => True
  | numeral _ => False

/-- If this fails, then for how a text is written. -/
def FailsInSyntax (x : Except ReadError α) : Prop :=
  ∀ e, x = .error e → e.IsSyntax

namespace FailsInSyntax

theorem of_eq_ok {a : α} (h : x = .ok a) : FailsInSyntax x := by
  rintro e he
  rw [h] at he
  cases he

theorem bind {f : α → Except ReadError β} (hx : FailsInSyntax x) (hf : ∀ a, x = .ok a → FailsInSyntax (f a)) :
    FailsInSyntax (x >>= f) := by
  intro e he
  obtain he | ⟨a, ha, he⟩ := bind_eq_error_iff.1 he
  · exact hx e he
  · exact hf a ha e he

theorem map (hx : FailsInSyntax x) (f : α → β) : FailsInSyntax (x.map f) :=
  fun e he => hx e (map_eq_error_iff.1 he)

end FailsInSyntax

theorem failsInSyntax_readRelease (h : ∀ run, RunIn run cs → run.length ≤ Numeral.maxDigits) :
    FailsInSyntax (readRelease cs) := by
  intro e he
  rw [readRelease] at he
  split at he
  · cases he
  · cases he
    exact trivial
  · next hread =>
    obtain ⟨run, hrun, hlong⟩ := Release.exists_run_of_read_eq_numeral hread
    exact absurd (h run hrun) (Nat.not_le_of_lt hlong)

namespace Partial

variable {a b c : Nat} {pre : List Char} {s : Spelling} {p : Partial}

/-- The runs of digits in the text of a release are its numbers and those of its pre-release. -/
theorem infix_of_runIn_releaseChars (h : RunIn run (releaseChars a b c pre)) :
    (∃ n ∈ [a, b, c], run <:+: Numeral.digits n) ∨ run <:+: pre := by
  obtain ⟨hin, hdigits⟩ := h
  have hmark {m : Char} (hm : m.isDigit = false) : m ∉ run := by
    intro hmem
    rw [hdigits m hmem] at hm
    cases hm
  have hpoint : '.' ∉ run := hmark rfl
  rw [releaseChars, List.append_assoc, List.append_assoc, List.cons_append, List.cons_append] at hin
  obtain ha | hin := Text.infix_of_infix_append_cons hin hpoint
  · exact .inl ⟨a, by simp, ha⟩
  obtain hb | hin := Text.infix_of_infix_append_cons hin hpoint
  · exact .inl ⟨b, by simp, hb⟩
  split at hin
  · rw [List.append_nil] at hin
    exact .inl ⟨c, by simp, hin⟩
  · obtain hc | hpre := Text.infix_of_infix_append_cons hin (hmark rfl)
    · exact .inl ⟨c, by simp, hc⟩
    · exact .inr hpre

theorem infix_of_takeTag? {mark : Char} {tag rest : List Char} (h : takeTag? mark cs = some (tag, rest)) :
    tag <:+: cs := by
  rw [takeTag?] at h
  split at h
  · cases h
    exact List.nil_infix
  · next ds hds =>
    dsimp only at h
    split at h
    · cases h
    · cases h
      exact (List.takeWhile_prefix _).isInfix.trans (Text.dropStart?_suffix hds).isInfix

theorem pre_infix_of_ofChars? (h : Spelling.ofChars? cs = some s) : s.pre <:+: cs := by
  have hv := Text.getD_dropStart?_suffix ['v'] cs
  simp only [Spelling.ofChars?, Option.bind_eq_bind] at h
  obtain ⟨⟨major, r⟩, hmajor, h⟩ := Option.bind_eq_some_iff.1 h
  obtain ⟨⟨pre, r₂⟩, hpre, h⟩ := Option.bind_eq_some_iff.1 h
  obtain ⟨_, -, h⟩ := Option.bind_eq_some_iff.1 h
  split at h
  · cases h
    have hr := (isIn_of_takePlace? hmajor).2
    have hplaces := (isIn_takeFurther (takeFurther r).2).2.trans (isIn_takeFurther r).2
    exact (infix_of_takeTag? hpre).trans (hplaces.trans (hr.trans hv)).isInfix
  · cases h

theorem failsInSyntax_readNumber (hruns : ShortRuns cs) (hin : (Place.digits ds).IsIn cs) :
    FailsInSyntax (readNumber ds) := by
  obtain ⟨hds, hdec⟩ := hin ds rfl
  refine .of_eq_ok (a := Numeral.value ds) (mapError_eq_ok_iff.2 ?_)
  rw [Numeral.read, if_pos (Nat.le_of_lt (hruns ds hds hdec))]

theorem failsInSyntax_ofSpelling (hruns : ShortRuns cs) (h : Spelling.ofChars? cs = some s) :
    FailsInSyntax (ofSpelling s) := by
  obtain ⟨hmajor, hminor, hpatch⟩ := isIn_of_ofChars? h
  rw [ofSpelling]
  split
  · exact .of_eq_ok rfl
  · next as has _ => exact (failsInSyntax_readNumber hruns (has ▸ hmajor)).map _
  · next as bs has hbs _ =>
    refine (failsInSyntax_readNumber hruns (has ▸ hmajor)).bind fun a _ => ?_
    exact (failsInSyntax_readNumber hruns (hbs ▸ hminor)).bind fun b _ => .of_eq_ok rfl
  · next as bs ds has hbs hds =>
    refine (failsInSyntax_readNumber hruns (has ▸ hmajor)).bind fun a ha => ?_
    refine (failsInSyntax_readNumber hruns (hbs ▸ hminor)).bind fun b hb => ?_
    refine (failsInSyntax_readNumber hruns (hds ▸ hpatch)).bind fun c hc => ?_
    refine FailsInSyntax.bind (failsInSyntax_readRelease fun run hrun => ?_) fun r _ => .of_eq_ok rfl
    obtain ⟨n, hn, hin⟩ | hin := infix_of_runIn_releaseChars hrun
    · have hshort : ∀ n ∈ [a, b, c], Numeral.Short n :=
        List.forall_mem_cons.2 ⟨short_of_readNumber hruns (has ▸ hmajor) ha,
          List.forall_mem_cons.2 ⟨short_of_readNumber hruns (hbs ▸ hminor) hb,
            List.forall_mem_singleton.2 (short_of_readNumber hruns (hds ▸ hpatch) hc)⟩⟩
      exact hin.length_le.trans (Numeral.length_digits_le_maxDigits_iff.2 (hshort n hn).lt)
    · have hdec : ∀ c ∈ run, Text.isDecimal c = true := fun c hc => Text.isDecimal_of_isDigit (hrun.2 c hc)
      exact Nat.le_of_lt (hruns run (hin.trans (pre_infix_of_ofChars? h)) hdec)

theorem failsInSyntax_read (hruns : ShortRuns cs) : FailsInSyntax (read cs) := by
  rw [read]
  split
  · rintro _ ⟨⟩
    exact trivial
  · next s hs => exact failsInSyntax_ofSpelling hruns hs

theorem exists_interval (hp : p.Short) (op : Operator) : ∃ i, p.interval op = .ok i := by
  by_cases hne : p.numbers = []
  · cases p with
    | any => cases op <;> exact ⟨_, rfl⟩
    | major | minor | full => cases hne
  · cases op with
    | equal => exact ⟨_, equal_eq hp⟩
    | less => exact ⟨_, less_eq p⟩
    | lessEqual => exact ⟨_, lessEqual_eq hp⟩
    | greater => exact ⟨_, greater_eq hp⟩
    | greaterEqual => exact ⟨_, greaterEqual_eq p⟩
    | caret =>
      obtain ⟨u, hu, -⟩ := exists_caret hp hne
      exact ⟨_, hu⟩
    | tilde =>
      obtain ⟨u, hu, -⟩ := exists_tilde hp hne
      exact ⟨_, hu⟩

end Partial

theorem takeOperator_suffix (cs : List Char) : (takeOperator cs).2 <:+ cs := by
  fun_cases takeOperator cs with
  | case1 cs | case2 cs | case7 cs => exact (List.suffix_cons _ _).trans (List.suffix_cons _ _)
  | case3 cs | case4 cs | case5 cs | case6 cs | case8 cs => exact List.suffix_cons _ _
  | case9 => exact List.suffix_rfl

theorem failsInSyntax_readComparator (hruns : ShortRuns cs) : FailsInSyntax (readComparator cs) := by
  have hoperand := hruns.of_infix (takeOperator_suffix cs).isInfix
  refine (Partial.failsInSyntax_read hoperand).bind fun p hp => ?_
  obtain ⟨i, hi⟩ := Partial.exists_interval (Partial.short_of_read hoperand hp) (takeOperator cs).1
  exact .of_eq_ok hi

variable {ws : List (List Char)} {i : Interval}

theorem failsInSyntax_meetAll (h : ∀ token ∈ ws, ShortRuns token) : FailsInSyntax (meetAll i ws) := by
  induction ws generalizing i with
  | nil => exact .of_eq_ok rfl
  | cons token ws ih =>
    obtain ⟨htoken, htokens⟩ := List.forall_mem_cons.1 h
    exact (failsInSyntax_readComparator htoken).bind fun j _ => ih htokens

theorem failsInSyntax_readHyphen {low high : List Char} (hlow : ShortRuns low) (hhigh : ShortRuns high) :
    FailsInSyntax (readHyphen low high) := by
  refine (Partial.failsInSyntax_read hlow).bind fun p _ => ?_
  refine (Partial.failsInSyntax_read hhigh).bind fun q hq => ?_
  refine FailsInSyntax.bind (.of_eq_ok (Partial.lessEqual_eq (Partial.short_of_read hhigh hq))) fun upper _ => ?_
  exact .of_eq_ok rfl

theorem endsOperator_of_isDecimal {c : Char} (hc : Text.isDecimal c = true) : endsOperator c = false :=
  endsOperator_of_isOperandChar (isOperandChar_of_isDecimal hc)

theorem prefix_of_prefix_closeGaps (h : run <+: closeGaps false cs) (hdec : ∀ c ∈ run, Text.isDecimal c = true) :
    run <+: cs := by
  induction cs generalizing run with
  | nil => exact h
  | cons c cs ih =>
    obtain rfl | ⟨run, rfl, hrun⟩ := List.prefix_cons_iff.1 h
    · exact List.nil_prefix
    · -- A digit ends no operator, so that no gap can open within the run.
      obtain ⟨hc, hdec⟩ := List.forall_mem_cons.1 hdec
      rw [endsOperator_of_isDecimal hc] at hrun
      exact List.cons_prefix_cons.2 ⟨rfl, ih hrun hdec⟩

/-- Closing the gaps behind operators does not put digits together. -/
theorem infix_of_infix_closeGaps {inGap : Bool} (h : run <:+: closeGaps inGap cs)
    (hdec : ∀ c ∈ run, Text.isDecimal c = true) : run <:+: cs := by
  induction cs generalizing inGap with
  | nil => exact h
  | cons c cs ih =>
    rw [closeGaps] at h
    split at h
    · exact List.infix_cons (ih h)
    · obtain h | h := List.infix_cons_iff.1 h
      · obtain rfl | ⟨run, rfl, hrun⟩ := List.prefix_cons_iff.1 h
        · exact List.nil_infix
        · obtain ⟨hc, hdec⟩ := List.forall_mem_cons.1 hdec
          rw [endsOperator_of_isDecimal hc] at hrun
          exact (List.cons_prefix_cons.2 ⟨rfl, prefix_of_prefix_closeGaps hrun hdec⟩).isInfix
      · exact List.infix_cons (ih h)

theorem shortRuns_of_mem_tokens (hruns : ShortRuns cs) {token : List Char} (h : token ∈ tokens cs) :
    ShortRuns token := by
  intro run hrun hdec
  have hin := hrun.trans (Text.word_of_mem_words h).1
  exact hruns run ((infix_of_infix_closeGaps hin hdec).trans (Text.isInfix_trim cs)) hdec

theorem failsInSyntax_readAlternative (hruns : ShortRuns cs) : FailsInSyntax (readAlternative cs) := by
  have hword {w : List Char} (hw : w ∈ Text.words cs) : ShortRuns w := hruns.of_infix (Text.word_of_mem_words hw).1
  rw [readAlternative]
  split
  · next low high hw => exact failsInSyntax_readHyphen (hword (by simp [hw])) (hword (by simp [hw]))
  · exact failsInSyntax_meetAll fun token htoken => shortRuns_of_mem_tokens hruns htoken

theorem failsInSyntax_readAlternatives {css : List (List Char)} (h : ∀ cs ∈ css, ShortRuns cs) :
    FailsInSyntax (readAlternatives css) := by
  induction css with
  | nil => exact .of_eq_ok rfl
  | cons cs css ih =>
    obtain ⟨hcs, hcss⟩ := List.forall_mem_cons.1 h
    exact (failsInSyntax_readAlternative hcs).bind fun i _ => (ih hcss).bind fun is _ => .of_eq_ok rfl

theorem failsInSyntax_readChars (hruns : ShortRuns cs) : FailsInSyntax (readChars cs) :=
  (failsInSyntax_readAlternatives fun ds hds => hruns.of_infix ((Text.standIn_splitBars cs).all ds hds)).map _

theorem within_of_meetAll {j : Interval} (h : meetAll i ws = .ok j) : j.Within i := by
  induction ws generalizing i with
  | nil =>
    cases h
    exact .refl _
  | cons token ws ih =>
    obtain ⟨k, -, h⟩ := bind_eq_ok_iff.1 h
    exact (ih h).trans (Interval.meet_within_left i k)

theorem isLE_lower_of_readAlternative (h : readAlternative cs = .ok i) :
    (Release.origin.compare i.lower).isLE = true := by
  have hself : Release.origin.compare Release.origin = .eq := Std.ReflCmp.compare_self
  have horigin : (Release.origin.compare Release.origin).isLE = true := by rw [hself]; rfl
  rw [readAlternative] at h
  split at h
  · obtain ⟨p, -, h⟩ := bind_eq_ok_iff.1 h
    obtain ⟨q, -, h⟩ := bind_eq_ok_iff.1 h
    obtain ⟨upper, hupper, h⟩ := bind_eq_ok_iff.1 h
    cases h
    obtain ⟨u, upperIn, rfl⟩ := exists_eq_of_lessEqual hupper
    exact (Interval.meet_within_right _ _).isLE_lower horigin
  · exact (within_of_meetAll h).isLE_lower horigin

theorem origin_le_of_readAlternatives {css : List (List Char)} {is : List Interval}
    (h : readAlternatives css = .ok is) :
    is.length = css.length ∧ ∀ i ∈ is, (Release.origin.compare i.lower).isLE = true := by
  induction css generalizing is with
  | nil =>
    cases h
    exact ⟨rfl, List.forall_mem_nil _⟩
  | cons cs css ih =>
    obtain ⟨i, hi, h⟩ := bind_eq_ok_iff.1 h
    obtain ⟨js, hjs, h⟩ := bind_eq_ok_iff.1 h
    cases h
    obtain ⟨hlength, hall⟩ := ih hjs
    exact ⟨congrArg Nat.succ hlength, List.forall_mem_cons.2 ⟨isLE_lower_of_readAlternative hi, hall⟩⟩

theorem wellFormed_of_read {text : String} {is : List Interval} (h : read text = .ok is) :
    is.length ≤ (Text.splitBars text.toList).length ∧ ∀ i ∈ is, i.WellFormed := by
  have hplain := plainEnds_of_read h
  obtain ⟨js, hjs, rfl⟩ := map_eq_ok_iff.1 h
  obtain ⟨hlength, horigin⟩ := origin_le_of_readAlternatives hjs
  refine ⟨hlength ▸ List.length_filter_le _ js, fun i hi => ?_⟩
  obtain ⟨hends, hempty⟩ := hplain i hi
  exact ⟨hempty, horigin i (List.mem_of_mem_filter hi), hends, fun u hu => (Interval.isEmpty_eq_false_iff hu).1 hempty⟩

/-- What a comparator is cut from is a word, and each end that it gives is what its own text is read as. -/
theorem read_ends_of_mem_tokens {token : List Char} (h : token ∈ tokens cs) :
    (token ≠ [] ∧ ∀ c ∈ token, Text.isBlank c = false) ∧
      ∀ i, readComparator token = .ok i →
        readRelease i.lower.chars = .ok i.lower ∧ ∀ u ∈ i.upper, readRelease u.chars = .ok u := by
  refine ⟨(Text.word_of_mem_words h).2, fun i hi => ?_⟩
  obtain ⟨hlower, hupper⟩ := plainEnds_of_readComparator hi
  exact ⟨readRelease_eq_ok_iff.2 hlower.read_chars, fun u hu => readRelease_eq_ok_iff.2 (hupper u hu).read_chars⟩

/-- A text without long runs of digits is refused as a range for its syntax, or it is read into well-formed intervals,
at most one for each alternative. Nothing that comes up on the way is refused for another reason: a comparator has no
blank in it, and the ends that are put together from its numbers are releases. -/
theorem read_fails_in_syntax {text : String} (hruns : ShortRuns text.toList) :
    ((∃ e, read text = .error e ∧ e.IsSyntax) ∨
        ∃ is, read text = .ok is ∧ is.length ≤ (Text.splitBars text.toList).length ∧ ∀ i ∈ is, i.WellFormed) ∧
      ∀ cs ∈ Text.splitBars text.toList, ∀ token ∈ tokens cs,
        (token ≠ [] ∧ ∀ c ∈ token, Text.isBlank c = false) ∧
          ∀ i, readComparator token = .ok i →
            readRelease i.lower.chars = .ok i.lower ∧ ∀ u ∈ i.upper, readRelease u.chars = .ok u := by
  refine ⟨?_, fun cs _ token htoken => read_ends_of_mem_tokens htoken⟩
  cases h : read text with
  | error e => exact .inl ⟨e, rfl, failsInSyntax_readChars hruns e h⟩
  | ok is => exact .inr ⟨is, rfl, wellFormed_of_read h⟩

/-- Digits of another script are read, and so is a comparator with a gap behind its operator. -/
theorem read_fails_in_syntax_hyphen :
    Numeral.ShortRuns "2.0.0 - 1.٣.0 || >= 1.x".toList ∧
      ∃ is, read "2.0.0 - 1.٣.0 || >= 1.x" = .ok is ∧ is.length ≤ 2 ∧ ∀ i ∈ is, i.WellFormed := by
  have hruns : ShortRuns "2.0.0 - 1.٣.0 || >= 1.x".toList := Numeral.shortRuns_of_length_lt (by decide)
  obtain ⟨is, hread⟩ : ∃ is, read "2.0.0 - 1.٣.0 || >= 1.x" = .ok is := ⟨_, rfl⟩
  refine ⟨hruns, ?_⟩
  obtain ⟨⟨e, he, -⟩ | ⟨is, his, hlength, hall⟩, -⟩ := read_fails_in_syntax hruns
  · rw [hread] at he
    cases he
  · exact ⟨is, his, hlength, hall⟩

end Range

end RuntimeRanges
