import RuntimeRanges.Proofs.Range.Alternative
import RuntimeRanges.Proofs.Range.Comparator

/-!
The text of a version as a range. Reading it never fails for a short version, and gives intervals that contain
the triples which the version admits and no others.
-/

namespace RuntimeRanges

namespace Version

variable {side? : Option Side} {p : Parts} {c : Char}

theorem mem_comparatorChars (h : c ∈ comparatorChars side? p) :
    c.isDigit = true ∨ c = '.' ∨ c = 'x' ∨ c = '<' ∨ c = '>' ∨ c = '=' := by
  rw [comparatorChars, List.mem_append] at h
  rcases h with h | h
  · cases side? with
    | none => cases h
    | some side =>
      cases side <;>
        simp only [Option.map_some, Option.getD_some, Side.chars, List.mem_cons, List.not_mem_nil, or_false] at h <;>
        grind
  · rcases Parts.mem_chars h with h | h | h
    · exact .inl h
    · exact .inr (.inl h)
    · exact .inr (.inr (.inl h))

theorem noBlank_comparatorChars (side? : Option Side) (p : Parts) :
    ∀ c ∈ comparatorChars side? p, Text.isBlank c = false := by
  intro c hc
  rcases mem_comparatorChars hc with hc | rfl | rfl | rfl | rfl | rfl
  · exact Text.isBlank_of_isDigit hc
  all_goals decide

theorem noBar_comparatorChars (side? : Option Side) (p : Parts) : ∀ c ∈ comparatorChars side? p, c ≠ '|' := by
  intro c hc
  rcases mem_comparatorChars hc with hc | rfl | rfl | rfl | rfl | rfl
  · exact Text.ne_of_isDigit hc rfl
  all_goals decide

theorem exists_comparatorChars_eq (side? : Option Side) (p : Parts) :
    ∃ cs c, comparatorChars side? p = cs ++ [c] ∧ Range.endsOperator c = false := by
  have hne := p.patch.chars_ne_nil
  refine ⟨(side?.map Side.chars).getD [] ++ (p.major.chars ++ '.' :: (p.minor.chars ++ '.' :: p.patch.chars.dropLast)),
    p.patch.chars.getLast hne, ?_, Range.endsOperator_of_mem_component (List.getLast_mem hne)⟩
  have hpatch := List.dropLast_concat_getLast hne
  rw [comparatorChars, Parts.chars_eq]
  simp [hpatch]

theorem comparatorChars_ne_nil (side? : Option Side) (p : Parts) : comparatorChars side? p ≠ [] := by
  obtain ⟨cs, c, h, _⟩ := exists_comparatorChars_eq side? p
  rw [h]
  simp

end Version

namespace Range

open Version (comparatorChars)

variable {p q : Parts}

theorem readAlternative_comparatorChars (before after : List Char) (side? : Option Side) (hp : p.Short)
    (hb : ∀ c ∈ before, Text.isBlank c = true) (ha : ∀ c ∈ after, Text.isBlank c = true) :
    ∃ i, readAlternative (before ++ comparatorChars side? p ++ after) = .ok i ∧ i.Represents (p.Admits side?) := by
  obtain ⟨i, hi, hr⟩ := readComparator_comparatorChars side? hp
  refine ⟨Interval.any.meet i, ?_, hr.any_meet⟩
  rw [readAlternative_between hb ha (Version.comparatorChars_ne_nil side? p)
    (Version.noBlank_comparatorChars side? p), meetAll, hi]
  rfl

theorem readAlternative_two_comparators (s₁ s₂ : Option Side) (hp : p.Short) (hq : q.Short) :
    ∃ i, readAlternative (comparatorChars s₁ p ++ ' ' :: comparatorChars s₂ q) = .ok i ∧
      i.Represents fun t => p.Admits s₁ t ∧ q.Admits s₂ t := by
  obtain ⟨i, hi, hri⟩ := readComparator_comparatorChars s₁ hp
  obtain ⟨j, hj, hrj⟩ := readComparator_comparatorChars s₂ hq
  refine ⟨(Interval.any.meet i).meet j, ?_, hri.any_meet.meet hrj⟩
  have hne := Version.comparatorChars_ne_nil s₂ q
  have hsolid := Version.noBlank_comparatorChars s₁ p
  obtain ⟨cs, c, hc, hop⟩ := Version.exists_comparatorChars_eq s₁ p
  rw [hc] at hi hsolid ⊢
  rw [readAlternative_two (fun d hd => hsolid d (by simp [hd])) (hsolid c (by simp)) hop hne
    (Version.noBlank_comparatorChars s₂ q), meetAll, hi]
  change meetAll (Interval.any.meet i) [comparatorChars s₂ q] = _
  rw [meetAll, hj]
  rfl

/-- The intervals represent a set together: each is anchored and not empty, and they contain its triples. -/
structure Represent (is : List Interval) (S : List Nat → Prop) : Prop where
  anchored : ∀ i ∈ is, i.Anchored
  nonempty : ∀ i ∈ is, i.isEmpty = false
  contains_iff : ∀ a b c, is.any (·.contains (.ofNumbers a b c)) = true ↔ S [a, b, c]

theorem readChars_of_readAlternatives {cs : List Char} (is : List Interval) {S : List Nat → Prop}
    (h : readAlternatives (Text.splitBars cs) = .ok is) (ha : ∀ i ∈ is, i.Anchored)
    (hS : ∀ a b c, is.any (·.contains (.ofNumbers a b c)) = true ↔ S [a, b, c]) :
    ∃ js, readChars cs = .ok js ∧ Represent js S := by
  refine ⟨is.filter fun i => !i.isEmpty, by rw [readChars, h]; rfl, ?_, ?_, ?_⟩
  · intro i hi
    exact ha i (List.mem_filter.1 hi |>.1)
  · intro i hi
    simpa using (List.mem_filter.1 hi).2
  · intro a b c
    rw [Interval.any_contains_filter, hS]

theorem readChars_comparatorChars (side? : Option Side) (hp : p.Short) :
    ∃ is, readChars (comparatorChars side? p) = .ok is ∧ Represent is (p.Admits side?) := by
  obtain ⟨i, hi, hr⟩ := readAlternative_comparatorChars [] [] side? hp (by simp) (by simp)
  rw [List.nil_append, List.append_nil] at hi
  apply readChars_of_readAlternatives [i]
  · rw [Text.splitBars_of_noBar (Version.noBar_comparatorChars side? p), readAlternatives, hi]
    rfl
  · simpa using hr.toAnchored
  · simpa using hr.contains_iff

theorem readChars_both (s₁ s₂ : Option Side) (hp : p.Short) (hq : q.Short) :
    ∃ is, readChars (comparatorChars s₁ p ++ ' ' :: comparatorChars s₂ q) = .ok is ∧
      Represent is fun t => p.Admits s₁ t ∧ q.Admits s₂ t := by
  obtain ⟨i, hi, hr⟩ := readAlternative_two_comparators s₁ s₂ hp hq
  have hbar : ∀ c ∈ comparatorChars s₁ p ++ ' ' :: comparatorChars s₂ q, c ≠ '|' := by
    intro c hc
    rw [List.mem_append, List.mem_cons] at hc
    rcases hc with hc | rfl | hc
    · exact Version.noBar_comparatorChars _ _ c hc
    · decide
    · exact Version.noBar_comparatorChars _ _ c hc
  apply readChars_of_readAlternatives [i]
  · rw [Text.splitBars_of_noBar hbar, readAlternatives, hi]
    rfl
  · simpa using hr.toAnchored
  · simpa using hr.contains_iff

theorem readChars_either (s₁ s₂ : Option Side) (hp : p.Short) (hq : q.Short) :
    ∃ is, readChars (comparatorChars s₁ p ++ ([' ', '|', '|', ' '] ++ comparatorChars s₂ q)) = .ok is ∧
      Represent is fun t => p.Admits s₁ t ∨ q.Admits s₂ t := by
  have hblank : ∀ c ∈ [' '], Text.isBlank c = true := by simp; rfl
  obtain ⟨i, hi, hri⟩ := readAlternative_comparatorChars [] [' '] s₁ hp (by simp) hblank
  obtain ⟨j, hj, hrj⟩ := readAlternative_comparatorChars [' '] [] s₂ hq hblank (by simp)
  rw [List.nil_append] at hi
  rw [List.append_nil, List.singleton_append] at hj
  have hfirst : ∀ c ∈ comparatorChars s₁ p ++ [' '], c ≠ '|' := by
    intro c hc
    rw [List.mem_append, List.mem_singleton] at hc
    rcases hc with hc | rfl
    · exact Version.noBar_comparatorChars _ _ c hc
    · decide
  have hsecond : ∀ c ∈ ' ' :: comparatorChars s₂ q, c ≠ '|' := by
    intro c hc
    rcases List.mem_cons.1 hc with rfl | hc
    · decide
    · exact Version.noBar_comparatorChars _ _ c hc
  have hsplit : Text.splitBars (comparatorChars s₁ p ++ ([' ', '|', '|', ' '] ++ comparatorChars s₂ q)) =
      [comparatorChars s₁ p ++ [' '], ' ' :: comparatorChars s₂ q] := by
    have happ := Text.splitBars_append hfirst (' ' :: comparatorChars s₂ q)
    rwa [Text.splitBars_of_noBar hsecond, List.append_assoc] at happ
  apply readChars_of_readAlternatives [i, j]
  · rw [hsplit]
    simp only [readAlternatives, hi, hj]
    rfl
  · simp only [List.mem_cons, List.not_mem_nil, or_false, forall_eq_or_imp, forall_eq]
    exact ⟨hri.toAnchored, hrj.toAnchored⟩
  · intro a b c
    simp only [List.any_cons, List.any_nil, Bool.or_false, Bool.or_eq_true, hri.contains_iff, hrj.contains_iff]

/-- The text of a short version is read as intervals of the triples that the version admits. -/
theorem read_rangeText {v : Version} (h : v.Short) : ∃ is, read v.rangeText = .ok is ∧ Represent is v.Admits := by
  rw [read, Version.rangeText, String.toList_ofList]
  cases v with
  | exact p => exact readChars_comparatorChars none h
  | limit l => exact readChars_comparatorChars (some l.side) h
  | pair l u =>
    obtain ⟨side, p⟩ := l
    obtain ⟨hp, hq⟩ := h
    cases side with
    | atLeast =>
      have hb := readChars_both (some .atLeast) (some u.side) hp hq
      rwa [← List.singleton_append, ← List.append_assoc] at hb
    | atMost =>
      have he := readChars_either (some .atMost) (some u.side) hp hq
      rwa [← List.append_assoc] at he

end Range

end RuntimeRanges
