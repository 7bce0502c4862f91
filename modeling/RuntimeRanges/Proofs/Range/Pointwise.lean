import RuntimeRanges.Proofs.Interval
import RuntimeRanges.Proofs.Outcome
import RuntimeRanges.Proofs.Range.Alternative
import RuntimeRanges.Proofs.Range.Operand
import RuntimeRanges.Proofs.Text.Words

/-!
Ranges comparator by comparator. Meeting the intervals of an alternative and leaving out the empty ones never changes
the answer: a release satisfies a range where it lies in the interval of every comparator of some alternative.
-/

namespace RuntimeRanges.Range

variable {cs low high w : List Char} {ws css : List (List Char)} {r : Release} {i j : Interval} {is : List Interval}

/-- Whether the interval of a comparator on its own contains a release. -/
def comparatorContains (token : List Char) (r : Release) : Bool :=
  match readComparator token with
  | .ok i => i.contains r
  | .error _ => false

/-- The comparators of an alternative: its words, once the blanks behind operators are left out. -/
def tokens (cs : List Char) : List (List Char) :=
  Text.words (closeGaps false (Text.trim cs))

/-- Whether an alternative holds for a release: it is empty, or a hyphen range between whose ends the release lies, or
each of its comparators contains the release. -/
def AlternativeHolds (cs : List Char) (r : Release) : Prop :=
  Text.trim cs = [] ∨
    (∃ low high, Text.words cs = [low, ['-'], high] ∧ comparatorContains ('>' :: '=' :: low) r = true ∧
      comparatorContains ('<' :: '=' :: high) r = true) ∨
    ∀ token ∈ tokens cs, comparatorContains token r = true

theorem comparatorContains_eq (h : readComparator w = .ok i) : comparatorContains w r = i.contains r := by
  rw [comparatorContains, h]

/-- The interval of comparators contains what the one it begins with and each of theirs do. -/
theorem contains_of_meetAll (h : meetAll i ws = .ok j) :
    j.contains r = true ↔ i.contains r = true ∧ ∀ token ∈ ws, comparatorContains token r = true := by
  induction ws generalizing i with
  | nil =>
    cases h
    simp
  | cons token ws ih =>
    obtain ⟨k, hk, h⟩ := bind_eq_ok_iff.1 h
    rw [ih h, Interval.contains_meet_eq, Bool.and_eq_true, List.forall_mem_cons, comparatorContains_eq hk, and_assoc]

theorem closeGaps_append_of_blank {before : List Char} (hb : ∀ c ∈ before, Text.isBlank c = true) (cs : List Char) :
    closeGaps false (before ++ cs) = before ++ closeGaps false cs := by
  induction before with
  | nil => rfl
  | cons b before ih =>
    have hop := endsOperator_of_isBlank (hb b List.mem_cons_self)
    simp only [List.cons_append, closeGaps, Bool.false_and, Bool.false_eq_true, ↓reduceIte, hop]
    rw [ih fun c hc => hb c (List.mem_cons_of_mem _ hc)]

theorem head?_closeGaps (cs : List Char) : (closeGaps false cs).head? = cs.head? := by
  cases cs <;> rfl

/-- The first word of a text is its first comparator unless it ends with an operator, and the next ones are those of
what follows. -/
theorem words_closeGaps_of_words (hw : Text.words cs = w :: ws) (hop : ∀ c ∈ w, endsOperator c = false) :
    ∃ rest, Text.words rest = ws ∧ Text.words (closeGaps false cs) = w :: Text.words (closeGaps false rest) := by
  obtain ⟨before, rest, rfl, hbefore, hne, hsolid, hrest, hws⟩ := Text.exists_eq_of_words_eq_cons hw
  obtain ⟨init, c, rfl⟩ : ∃ init c, w = init ++ [c] := ⟨_, _, (List.dropLast_concat_getLast hne).symm⟩
  refine ⟨rest, hws, ?_⟩
  have hgap : closeGaps false (init ++ [c] ++ rest) = init ++ [c] ++ closeGaps false rest := by
    have hinit : ∀ d ∈ init, Text.isBlank d = false := fun d hd => hsolid d (List.mem_append_left _ hd)
    have hc : c ∈ init ++ [c] := List.mem_append_right _ List.mem_cons_self
    rw [List.append_assoc, List.append_assoc, List.singleton_append, List.singleton_append,
      closeGaps_append hinit (hsolid c hc), hop c hc]
  rw [closeGaps_append_of_blank hbefore, hgap, Text.words_append_of_blank hbefore]
  apply Text.words_append hne hsolid
  rwa [head?_closeGaps]

theorem readComparator_hyphen : readComparator ['-'] = .error (.operand ['-']) := rfl

theorem hyphen_mem_tokens {p : Partial} (hw : Text.words cs = [low, ['-'], high]) (hlow : Partial.read low = .ok p) :
    ['-'] ∈ tokens cs := by
  have hop : ∀ c ∈ low, endsOperator c = false := fun c hc =>
    endsOperator_of_isOperandChar (Partial.isOperandChar_of_read hlow c hc)
  rw [← Text.words_trim] at hw
  obtain ⟨rest, hrest, htokens⟩ := words_closeGaps_of_words hw hop
  obtain ⟨rest', -, htokens'⟩ := words_closeGaps_of_words hrest (List.forall_mem_singleton.2 rfl)
  rw [tokens, htokens, htokens']
  exact List.mem_cons_of_mem _ List.mem_cons_self

theorem exists_eq_of_lessEqual {p : Partial} (h : p.lessEqual = .ok i) :
    ∃ u upperIn, i = ⟨.origin, u, true, upperIn⟩ := by
  cases p with
  | full a b c release =>
    cases h
    exact ⟨_, _, rfl⟩
  | any | major a | minor a b =>
    simp only [Partial.lessEqual, map_eq_ok_iff] at h
    obtain ⟨u, -, rfl⟩ := h
    exact ⟨_, _, rfl⟩

theorem contains_any_iff : Interval.any.contains r = true ↔ (Release.origin.compare r).isLE = true := by
  rw [Interval.contains_eq_true_iff, Interval.aboveLower_eq_true_iff]
  rw [and_iff_left (Interval.belowUpper_of_unbounded rfl r)]
  change Release.origin.compare r = .lt ∨ Release.origin.compare r = .eq ∧ true = true ↔ _
  cases Release.origin.compare r <;> simp

theorem contains_of_readHyphen (h : readHyphen low high = .ok i) :
    i.contains r = true ↔ Interval.any.contains r = true ∧ comparatorContains ('>' :: '=' :: low) r = true ∧
      comparatorContains ('<' :: '=' :: high) r = true := by
  obtain ⟨p, hp, h⟩ := bind_eq_ok_iff.1 h
  obtain ⟨q, hq, h⟩ := bind_eq_ok_iff.1 h
  obtain ⟨upper, hu, h⟩ := bind_eq_ok_iff.1 h
  cases h
  have hlow : readComparator ('>' :: '=' :: low) = .ok (.since p.floor) := bind_eq_ok_iff.2 ⟨p, hp, rfl⟩
  have hhigh : readComparator ('<' :: '=' :: high) = .ok upper := bind_eq_ok_iff.2 ⟨q, hq, hu⟩
  rw [comparatorContains_eq hlow, comparatorContains_eq hhigh, Interval.contains_meet_eq, Bool.and_eq_true]
  apply (and_iff_right_of_imp _).symm
  rintro ⟨-, hr⟩
  obtain ⟨u, upperIn, rfl⟩ := exists_eq_of_lessEqual hu
  rw [Interval.contains_eq_true_iff] at hr ⊢
  exact ⟨hr.1, Interval.belowUpper_of_unbounded rfl r⟩

/-- An alternative reads to an interval of the releases from the origin on for which it holds. -/
theorem contains_of_readAlternative (h : readAlternative cs = .ok i) :
    i.contains r = true ↔ Interval.any.contains r = true ∧ AlternativeHolds cs r := by
  rw [readAlternative] at h
  split at h
  · next low high hw =>
    rw [contains_of_readHyphen h]
    apply and_congr_right'
    constructor
    · exact fun hr => .inr (.inl ⟨low, high, hw, hr⟩)
    · rintro (hempty | ⟨low', high', hw', hr⟩ | hall)
      · rw [← Text.words_trim, hempty] at hw
        cases hw
      · rw [hw] at hw'
        cases hw'
        exact hr
      · obtain ⟨p, hp, -⟩ := bind_eq_ok_iff.1 h
        have hhyphen := hall _ (hyphen_mem_tokens hw hp)
        rw [comparatorContains, readComparator_hyphen] at hhyphen
        cases hhyphen
  · next hnot =>
    rw [contains_of_meetAll h]
    apply and_congr_right'
    constructor
    · exact fun hall => .inr (.inr hall)
    · rintro (hempty | ⟨low, high, hw, -⟩ | hall)
      · rw [hempty]
        intro token htoken
        cases htoken
      · exact absurd hw (hnot low high)
      · exact hall

theorem any_contains_of_readAlternatives (h : readAlternatives css = .ok is) :
    is.any (·.contains r) = true ↔ Interval.any.contains r = true ∧ ∃ cs ∈ css, AlternativeHolds cs r := by
  induction css generalizing is with
  | nil =>
    cases h
    simp
  | cons cs css ih =>
    obtain ⟨i, hi, h⟩ := bind_eq_ok_iff.1 h
    obtain ⟨js, hjs, h⟩ := bind_eq_ok_iff.1 h
    cases h
    rw [List.any_cons, Bool.or_eq_true, contains_of_readAlternative hi, ih hjs, ← and_or_left]
    simp only [List.mem_cons, exists_eq_or_imp]

/-- A release satisfies a range exactly if it is not before the origin and some alternative holds for it, comparator by
comparator. -/
theorem satisfies_iff_alternativeHolds {release range : String} (hr : readRelease release.toList = .ok r)
    (h : read range = .ok is) :
    ∃ satisfied, satisfies release range = .ok satisfied ∧
      (satisfied = true ↔ (Release.origin.compare r).isLE = true ∧
        ∃ cs ∈ Text.splitBars range.toList, AlternativeHolds cs r) := by
  refine ⟨is.any (·.contains r), ?_, ?_⟩
  · rw [satisfies, hr, h]
    rfl
  · obtain ⟨js, hjs, rfl⟩ := map_eq_ok_iff.1 h
    rw [Interval.any_contains_filter, any_contains_of_readAlternatives hjs, contains_any_iff]

theorem satisfies_iff_alternativeHolds_union :
    satisfies "1.2.3" ">=1.0.0 <1.2.3 || 1.2.3 - 2.3.4" = .ok true := by
  have hr : readRelease "1.2.3".toList = .ok (.ofNumbers 1 2 3) := by rfl
  obtain ⟨is, h⟩ : ∃ is, read ">=1.0.0 <1.2.3 || 1.2.3 - 2.3.4" = .ok is := ⟨_, rfl⟩
  have hbars : Text.splitBars ">=1.0.0 <1.2.3 || 1.2.3 - 2.3.4".toList =
      [">=1.0.0 <1.2.3 ".toList, " 1.2.3 - 2.3.4".toList] := by
    rfl
  have hlow : readComparator ">=1.2.3".toList = .ok (.since (.ofNumbers 1 2 3)) := by rfl
  have hhigh : readComparator "<=2.3.4".toList = .ok ⟨.origin, some (.ofNumbers 2 3 4), true, true⟩ := by rfl
  have hholds : AlternativeHolds " 1.2.3 - 2.3.4".toList (.ofNumbers 1 2 3) := by
    refine .inr (.inl ⟨"1.2.3".toList, "2.3.4".toList, by rfl, ?_, ?_⟩)
    · refine (comparatorContains_eq hlow).trans ?_
      simp only [Interval.contains, Interval.aboveLower, Interval.since, Release.compare_ofNumbers]
      rfl
    · refine (comparatorContains_eq hhigh).trans ?_
      simp only [Interval.contains, Interval.aboveLower, Interval.belowUpper, Release.origin, Release.compare_ofNumbers]
      rfl
  obtain ⟨satisfied, hs, hiff⟩ := satisfies_iff_alternativeHolds hr h
  have horigin : (Release.origin.compare (.ofNumbers 1 2 3)).isLE = true := by
    rw [Release.origin, Release.compare_ofNumbers]
    rfl
  rw [hbars] at hiff
  rw [hs, hiff.2 ⟨horigin, _, List.mem_cons_of_mem _ List.mem_cons_self, hholds⟩]

end RuntimeRanges.Range
