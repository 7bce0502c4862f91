import RuntimeRanges.Proofs.Text.Cut

/-!
What the words of a text say about the text: where the first word stands, and that blanks at the ends do not count.
-/

namespace RuntimeRanges.Text

variable {cs after w : List Char} {ws : List (List Char)}

theorem words_append_blanks (ha : ∀ c ∈ after, isBlank c = true) (cs : List Char) :
    words (cs ++ after) = words cs := by
  fun_induction words cs with
  | case1 => exact words_of_blank ha
  | case2 c cs hc ih => rw [List.cons_append, words_cons_of_blank hc, ih]
  | case3 c hc =>
    have hword : ∀ d ∈ [c], isBlank d = false := by simpa using hc
    rw [words_append (List.cons_ne_nil c []) hword fun b hb => ha b (List.mem_of_mem_head? hb), words_of_blank ha]
  | case4 c hc d cs hd ih =>
    have hc : isBlank c = false := by simpa using hc
    rw [List.cons_append, List.cons_append, words_cons_cons_of_blank hc hd, ← List.cons_append, ih]
  | case5 c hc d cs hd ih =>
    have hc : isBlank c = false := by simpa using hc
    have hd : isBlank d = false := by simpa using hd
    rw [List.cons_append, List.cons_append, words_cons_cons hc hd, ← List.cons_append, ih]

theorem words_ne_nil {c : Char} (hc : isBlank c = false) (cs : List Char) : words (c :: cs) ≠ [] := by
  cases cs with
  | nil =>
    rw [words_singleton hc]
    exact List.cons_ne_nil _ _
  | cons d cs =>
    cases hd : isBlank d with
    | true =>
      rw [words_cons_cons_of_blank hc hd]
      exact List.cons_ne_nil _ _
    | false =>
      rw [words_cons_cons hc hd]
      exact consHead_ne_nil _ _

theorem exists_eq_trimEnd_append (cs : List Char) :
    ∃ after, cs = trimEnd cs ++ after ∧ ∀ c ∈ after, isBlank c = true := by
  have hcut : cs.reverse.takeWhile isBlank ++ cs.reverse.dropWhile isBlank = cs.reverse :=
    List.takeWhile_append_dropWhile
  refine ⟨(cs.reverse.takeWhile isBlank).reverse, ?_, ?_⟩
  · rw [trimEnd, ← List.reverse_append, hcut, List.reverse_reverse]
  · intro c hc
    exact List.all_eq_true.1 List.all_takeWhile c (List.mem_reverse.1 hc)

theorem trimEnd_of_noBlank (h : ∀ c ∈ cs, isBlank c = false) : trimEnd cs = cs := by
  obtain ⟨after, hcs, hafter⟩ := exists_eq_trimEnd_append cs
  obtain rfl : after = [] := by
    rw [List.eq_nil_iff_forall_not_mem]
    intro c hc
    have hblank := h c (hcs ▸ List.mem_append_right _ hc)
    rw [hafter c hc] at hblank
    cases hblank
  rw [List.append_nil] at hcs
  exact hcs.symm

theorem isInfix_trim (cs : List Char) : trim cs <:+: cs := by
  obtain ⟨after, htrim, -⟩ := exists_eq_trimEnd_append (trimStart cs)
  have hstart : trim cs <+: trimStart cs := ⟨after, htrim.symm⟩
  exact hstart.isInfix.trans (List.dropWhile_suffix _).isInfix

theorem trim_between {before : List Char} (hb : ∀ c ∈ before, isBlank c = true) (ha : ∀ c ∈ after, isBlank c = true)
    (cs : List Char) :
    trim (before ++ cs ++ after) = trim cs := by
  have hstart : trimStart (before ++ cs ++ after) = trimStart (cs ++ after) := by
    rw [List.append_assoc, trimStart, List.dropWhile_append_of_pos hb]
    rfl
  have hafter : trimStart after = [] := by
    rw [trimStart, ← List.append_nil after, List.dropWhile_append_of_pos ha, List.dropWhile_nil]
  have hreverse : ∀ c ∈ after.reverse, isBlank c = true := fun c hc => ha c (List.mem_reverse.1 hc)
  rw [trim, trim, hstart]
  rw [trimStart, List.dropWhile_append, ← trimStart, ← trimStart, hafter]
  split
  · next hempty => rw [List.isEmpty_iff.1 hempty]
  · rw [trimEnd, List.reverse_append, List.dropWhile_append_of_pos hreverse]
    rfl

theorem words_trim (cs : List Char) : words (trim cs) = words cs := by
  have hstart : words (trimStart cs) = words cs := by
    have hcut : cs.takeWhile isBlank ++ trimStart cs = cs := List.takeWhile_append_dropWhile
    have hblank : ∀ c ∈ cs.takeWhile isBlank, isBlank c = true :=
      List.all_eq_true.1 List.all_takeWhile
    rw [← words_append_of_blank hblank (trimStart cs), hcut]
  have hend (ds : List Char) : words (trimEnd ds) = words ds := by
    obtain ⟨after, hds, hafter⟩ := exists_eq_trimEnd_append ds
    rw [← words_append_blanks hafter (trimEnd ds), ← hds]
  rw [trim, hend, hstart]

theorem exists_eq_of_words_eq_cons (h : words cs = w :: ws) :
    ∃ before rest, cs = before ++ (w ++ rest) ∧ (∀ c ∈ before, isBlank c = true) ∧ w ≠ [] ∧
      (∀ c ∈ w, isBlank c = false) ∧ (∀ b ∈ rest.head?, isBlank b = true) ∧ words rest = ws := by
  fun_induction words cs generalizing w ws with
  | case1 => cases h
  | case2 c cs hc ih =>
    obtain ⟨before, rest, rfl, hbefore, hw⟩ := ih h
    refine ⟨c :: before, rest, rfl, ?_, hw⟩
    intro d hd
    obtain rfl | hd := List.mem_cons.1 hd
    · exact hc
    · exact hbefore d hd
  | case3 c hc =>
    cases h
    exact ⟨[], [], rfl, by simp, by simp, by simpa using hc, by simp, rfl⟩
  | case4 c hc d cs hd ih =>
    cases h
    exact ⟨[], d :: cs, rfl, by simp, by simp, by simpa using hc, by simpa using hd, rfl⟩
  | case5 c hc d cs hd ih =>
    have hd : isBlank d = false := by simpa using hd
    obtain ⟨w', ws', hws⟩ := List.exists_cons_of_ne_nil (words_ne_nil hd cs)
    rw [hws, consHead] at h
    cases h
    obtain ⟨before, rest, heq, hbefore, -, hw, hrest⟩ := ih hws
    cases before with
    | cons b before =>
      cases heq
      have hblank := hbefore d List.mem_cons_self
      rw [hd] at hblank
      cases hblank
    | nil =>
      refine ⟨[], rest, congrArg (c :: ·) heq, by simp, List.cons_ne_nil _ _, ?_, hrest⟩
      intro e he
      obtain rfl | he := List.mem_cons.1 he
      · simpa using hc
      · exact hw e he

end RuntimeRanges.Text
