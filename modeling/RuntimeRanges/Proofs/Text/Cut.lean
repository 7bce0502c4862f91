import RuntimeRanges.Text.Blank

/-!
Cutting texts that were put together: blanks come off the ends of a text that has none at its own ends, a run
without blanks is one word, and a text without bars is one alternative.
-/

namespace RuntimeRanges.Text

variable {cs ds before after rest : List Char} {b c d : Char}

theorem dropStart?_singleton_eq_none (h : ∀ c ∈ cs.head?, c ≠ b) : dropStart? [b] cs = none := by
  rw [Option.eq_none_iff_forall_ne_some]
  rintro rest hs
  rw [dropStart?_eq_some_iff] at hs
  exact h b (by rw [hs]; rfl) rfl

theorem dropStart?_suffix (h : dropStart? before cs = some rest) : rest <:+ cs := by
  rw [dropStart?_eq_some_iff.1 h]
  exact List.suffix_append _ _

theorem getD_dropStart?_suffix (before cs : List Char) : (dropStart? before cs).getD cs <:+ cs := by
  cases h : dropStart? before cs with
  | none => exact List.suffix_rfl
  | some rest => exact dropStart?_suffix h

/-- What follows is left of a text once characters of one kind are taken off its front. -/
def Leaves (p : Char → Prop) (cs rest : List Char) : Prop :=
  ∃ run, cs = run ++ rest ∧ ∀ c ∈ run, p c

namespace Leaves

variable {p : Char → Prop}

theorem refl (cs : List Char) : Leaves p cs cs :=
  ⟨[], rfl, List.forall_mem_nil _⟩

theorem trans (h : Leaves p cs ds) (h' : Leaves p ds rest) : Leaves p cs rest := by
  obtain ⟨run, rfl, hrun⟩ := h
  obtain ⟨run', rfl, hrun'⟩ := h'
  exact ⟨run ++ run', (List.append_assoc ..).symm, List.forall_mem_append.2 ⟨hrun, hrun'⟩⟩

theorem cons (hc : p c) (h : Leaves p cs rest) : Leaves p (c :: cs) rest := by
  obtain ⟨run, rfl, hrun⟩ := h
  exact ⟨c :: run, rfl, List.forall_mem_cons.2 ⟨hc, hrun⟩⟩

theorem dropWhile {q : Char → Bool} (hq : ∀ c, q c = true → p c) (cs : List Char) : Leaves p cs (cs.dropWhile q) :=
  ⟨cs.takeWhile q, List.takeWhile_append_dropWhile.symm, fun c hc => hq c (List.all_eq_true.1 List.all_takeWhile c hc)⟩

theorem suffix (h : Leaves p cs rest) : rest <:+ cs := by
  obtain ⟨run, rfl, -⟩ := h
  exact List.suffix_append run rest

theorem forall_mem (h : Leaves p cs rest) (hrest : ∀ c ∈ rest, p c) : ∀ c ∈ cs, p c := by
  obtain ⟨run, rfl, hrun⟩ := h
  exact List.forall_mem_append.2 ⟨hrun, hrest⟩

end Leaves

theorem takeWhile_append_of_stop {p : Char → Bool} (hcs : ∀ c ∈ cs, p c = true)
    (hrest : ∀ c ∈ rest.head?, p c = false) : (cs ++ rest).takeWhile p = cs := by
  rw [List.takeWhile_append_of_pos hcs]
  cases rest with
  | nil => rw [List.takeWhile_nil, List.append_nil]
  | cons b rest => rw [List.takeWhile_cons_of_neg (by simp [hrest b rfl]), List.append_nil]

theorem dropWhile_append_of_stop {p : Char → Bool} (hcs : ∀ c ∈ cs, p c = true)
    (hrest : ∀ c ∈ rest.head?, p c = false) : (cs ++ rest).dropWhile p = rest := by
  rw [List.dropWhile_append_of_pos hcs]
  cases rest with
  | nil => rfl
  | cons b rest => rw [List.dropWhile_cons_of_neg (by simp [hrest b rfl])]

theorem trimStart_append (hb : ∀ c ∈ before, isBlank c = true) (hc : isBlank c = false) :
    trimStart (before ++ c :: cs) = c :: cs := by
  rw [trimStart, List.dropWhile_append_of_pos hb, List.dropWhile_cons_of_neg (by simp [hc])]

theorem trimEnd_append (hc : isBlank c = false) (ha : ∀ c ∈ after, isBlank c = true) :
    trimEnd (cs ++ c :: after) = cs ++ [c] := by
  have hr : (cs ++ c :: after).reverse = after.reverse ++ c :: cs.reverse := by simp
  have ha' : ∀ c ∈ after.reverse, isBlank c = true := fun d hd => ha d (List.mem_reverse.1 hd)
  rw [trimEnd, hr, List.dropWhile_append_of_pos ha', List.dropWhile_cons_of_neg (by simp [hc])]
  simp

theorem trim_append (hb : ∀ c ∈ before, isBlank c = true) (ha : ∀ c ∈ after, isBlank c = true)
    (hs : ∀ c ∈ cs.head?, isBlank c = false) (he : ∀ c ∈ cs.getLast?, isBlank c = false)
    (hne : cs ≠ []) : trim (before ++ cs ++ after) = cs := by
  cases cs with
  | nil => exact absurd rfl hne
  | cons c cs =>
    have hstart : trimStart (before ++ (c :: cs) ++ after) = (c :: cs) ++ after := by
      rw [List.append_assoc]
      exact trimStart_append hb (hs c rfl)
    rw [trim, hstart]
    obtain ⟨init, last, hl⟩ : ∃ init last, c :: cs = init ++ [last] :=
      ⟨_, _, (List.dropLast_concat_getLast hne).symm⟩
    rw [hl] at he ⊢
    rw [List.append_assoc]
    exact trimEnd_append (he last (by simp)) ha

theorem trim_of_ends (hs : ∀ c ∈ cs.head?, isBlank c = false) (he : ∀ c ∈ cs.getLast?, isBlank c = false) :
    trim cs = cs := by
  by_cases hne : cs = []
  · rw [hne]; rfl
  · have h : trim ([] ++ cs ++ []) = cs := trim_append (by simp) (by simp) hs he hne
    rwa [List.nil_append, List.append_nil] at h

theorem trim_of_noBlank (h : ∀ c ∈ cs, isBlank c = false) : trim cs = cs :=
  trim_of_ends (fun c hc => h c (List.mem_of_mem_head? hc)) fun c hc => h c (List.mem_of_mem_getLast? hc)

theorem trim_append_cons (hc : cs ≠ []) (hcs : ∀ c ∈ cs, isBlank c = false) (hd : ds ≠ [])
    (hds : ∀ c ∈ ds, isBlank c = false) : trim (cs ++ b :: ds) = cs ++ b :: ds := by
  apply trim_of_ends
  · intro c h
    rw [List.head?_append, List.head?_eq_some_head hc, Option.some_or, ← List.head?_eq_some_head hc] at h
    exact hcs c (List.mem_of_mem_head? h)
  · intro c h
    rw [List.getLast?_append, List.getLast?_cons_of_ne_nil hd, List.getLast?_eq_some_getLast hd,
      Option.some_or, ← List.getLast?_eq_some_getLast hd] at h
    exact hds c (List.mem_of_mem_getLast? h)

@[simp]
theorem words_nil : words [] = [] := rfl

theorem words_cons_of_blank (hb : isBlank b = true) : words (b :: cs) = words cs := by
  rw [words.eq_def]
  simp [hb]

theorem words_singleton (hc : isBlank c = false) : words [c] = [[c]] := by
  rw [words.eq_def]
  simp [hc]

theorem words_cons_cons_of_blank (hc : isBlank c = false) (hb : isBlank b = true) :
    words (c :: b :: cs) = [c] :: words (b :: cs) := by
  rw [words.eq_def]
  simp [hc, hb]

theorem words_cons_cons {d : Char} (hc : isBlank c = false) (hd : isBlank d = false) :
    words (c :: d :: cs) = consHead c (words (d :: cs)) := by
  rw [words.eq_def]
  simp [hc, hd]

/-- A run without blanks is a word where the text ends or a blank follows. -/
theorem words_append (hne : cs ≠ []) (hcs : ∀ c ∈ cs, isBlank c = false)
    (hrest : ∀ b ∈ rest.head?, isBlank b = true) : words (cs ++ rest) = cs :: words rest := by
  induction cs with
  | nil => exact absurd rfl hne
  | cons c cs ih =>
    have hc : isBlank c = false := hcs c (by simp)
    cases cs with
    | nil =>
      cases rest with
      | nil => exact words_singleton hc
      | cons b rest => exact words_cons_cons_of_blank hc (hrest b rfl)
    | cons d cs =>
      have hd : isBlank d = false := hcs d (by simp)
      have ih' := ih (by simp) fun e he => hcs e (List.mem_cons_of_mem _ he)
      rw [List.cons_append] at ih' ⊢
      rw [List.cons_append, words_cons_cons hc hd, ih', consHead]

theorem words_of_noBlank (hne : cs ≠ []) (hcs : ∀ c ∈ cs, isBlank c = false) : words cs = [cs] := by
  have h : words (cs ++ []) = cs :: words [] := words_append hne hcs (by simp)
  rwa [List.append_nil, words_nil] at h

theorem words_append_of_blank (hb : ∀ c ∈ before, isBlank c = true) (cs : List Char) :
    words (before ++ cs) = words cs := by
  induction before with
  | nil => rfl
  | cons b before ih =>
    rw [List.cons_append, words_cons_of_blank (hb b (by simp)), ih fun c hc => hb c (List.mem_cons_of_mem _ hc)]

theorem words_of_blank (hb : ∀ c ∈ before, isBlank c = true) : words before = [] := by
  rw [← List.append_nil before, words_append_of_blank hb, words_nil]

theorem words_between (hb : ∀ c ∈ before, isBlank c = true) (ha : ∀ c ∈ after, isBlank c = true)
    (hne : cs ≠ []) (hcs : ∀ c ∈ cs, isBlank c = false) : words (before ++ cs ++ after) = [cs] := by
  have hw := words_append hne hcs fun b h => ha b (List.mem_of_mem_head? h)
  rw [List.append_assoc, words_append_of_blank hb, hw, words_of_blank ha]

theorem mem_consHead_self (c : Char) (ws : List (List Char)) : ∃ w ∈ consHead c ws, c ∈ w := by
  cases ws with
  | nil => exact ⟨[c], List.mem_cons_self, List.mem_cons_self⟩
  | cons w ws => exact ⟨c :: w, List.mem_cons_self, List.mem_cons_self⟩

theorem exists_mem_consHead {w : List Char} {ws : List (List Char)} (hw : w ∈ ws) (hd : d ∈ w) (c : Char) :
    ∃ w ∈ consHead c ws, d ∈ w := by
  cases ws with
  | nil => cases hw
  | cons v ws =>
    obtain rfl | hw := List.mem_cons.1 hw
    · exact ⟨c :: w, List.mem_cons_self, List.mem_cons_of_mem c hd⟩
    · exact ⟨w, List.mem_cons_of_mem _ hw, hd⟩

theorem splitAt_ne_nil (separator : Char) (cs : List Char) : splitAt separator cs ≠ [] := by
  cases cs with
  | nil => exact List.cons_ne_nil _ _
  | cons c cs =>
    rw [splitAt]
    split
    · exact List.cons_ne_nil _ _
    · exact consHead_ne_nil _ _

theorem exists_mem_splitAt (hd : d ∈ cs) (hne : d ≠ b) : ∃ w ∈ splitAt b cs, d ∈ w := by
  induction cs with
  | nil => cases hd
  | cons c cs ih =>
    rw [splitAt]
    split
    · next hc =>
      obtain ⟨w, hw, hdw⟩ := ih ((List.mem_cons.1 hd).resolve_left fun h => hne (h.trans hc))
      exact ⟨w, List.mem_cons_of_mem _ hw, hdw⟩
    · obtain rfl | hd := List.mem_cons.1 hd
      · exact mem_consHead_self d _
      · obtain ⟨w, hw, hdw⟩ := ih hd
        exact exists_mem_consHead hw hdw c

theorem splitBars_cons_of_ne (hc : c ≠ '|') : splitBars (c :: cs) = consHead c (splitBars cs) := by
  rw [splitBars]
  rintro cs' rfl
  exact absurd rfl hc

theorem splitBars_append (hcs : ∀ c ∈ cs, c ≠ '|') (ds : List Char) :
    splitBars (cs ++ '|' :: '|' :: ds) = cs :: splitBars ds := by
  induction cs with
  | nil => rw [List.nil_append, splitBars]
  | cons c cs ih =>
    rw [List.cons_append, splitBars_cons_of_ne (hcs c (by simp)),
      ih fun d hd => hcs d (List.mem_cons_of_mem _ hd), consHead]

theorem splitBars_of_noBar (hcs : ∀ c ∈ cs, c ≠ '|') : splitBars cs = [cs] := by
  induction cs with
  | nil => rfl
  | cons c cs ih =>
    rw [splitBars_cons_of_ne (hcs c (by simp)), ih fun d hd => hcs d (List.mem_cons_of_mem _ hd), consHead]

end RuntimeRanges.Text
