import RuntimeRanges.Proofs.Release.Text

/-!
Local parts stand behind everything else. What is taken off the front of a text does not depend on the local part behind
it, so that a release with a local part is the release of the text in front of it, with that local part put to it.
-/

namespace RuntimeRanges.Release

variable {α : Type} {vocabulary : List (String × α)} {cs tail word : List Char}

theorem takeWord?_cons (word : String) (a : α) (cs : List Char) :
    takeWord? ((word, a) :: vocabulary) cs =
      ((Text.dropStart? word.toList cs).map (a, ·)).or (takeWord? vocabulary cs) := by
  simp only [takeWord?, List.findSome?_cons]
  cases Text.dropStart? word.toList cs <;> rfl

section Behind

variable (h : IsTail tail)

include h

theorem skipJoint_append_tail (cs : List Char) : skipJoint (cs ++ tail) = skipJoint cs ++ tail := by
  cases cs with
  | nil => obtain rfl | ⟨ds, rfl⟩ := h.cases <;> rfl
  | cons c cs =>
    rw [List.cons_append, skipJoint, skipJoint]
    split <;> rfl

theorem takeDigits_append_tail (cs : List Char) :
    takeDigits (cs ++ tail) = ((takeDigits cs).1, (takeDigits cs).2 ++ tail) := by
  have hcut : cs = cs.takeWhile Char.isDigit ++ cs.dropWhile Char.isDigit := List.takeWhile_append_dropWhile.symm
  have hrun : ∀ c ∈ cs.takeWhile Char.isDigit, c.isDigit = true := List.all_eq_true.1 List.all_takeWhile
  have hstop : ∀ c ∈ (cs.dropWhile Char.isDigit ++ tail).head?, c.isDigit = false := by
    intro c hc
    cases hd : cs.dropWhile Char.isDigit with
    | nil =>
      rw [hd, List.nil_append] at hc
      rw [h c hc]
      rfl
    | cons d ds =>
      rw [hd] at hc
      obtain rfl := Option.some.inj hc
      have hnot := List.head?_dropWhile_not Char.isDigit cs
      rw [hd] at hnot
      simpa using hnot
  have htake : takeDigits (cs.takeWhile Char.isDigit ++ (cs.dropWhile Char.isDigit ++ tail)) = _ :=
    takeDigits_append hrun hstop
  rw [← List.append_assoc, ← hcut] at htake
  exact htake

theorem dropStart?_append_tail (hword : '+' ∉ word) (cs : List Char) :
    Text.dropStart? word (cs ++ tail) = (Text.dropStart? word cs).map (· ++ tail) := by
  induction word generalizing cs with
  | nil => rfl
  | cons e word ih =>
    obtain ⟨he, hword⟩ := not_or.1 (mt List.mem_cons.2 hword)
    cases cs with
    | cons c cs =>
      rw [List.cons_append, Text.dropStart?, Text.dropStart?]
      split
      · exact ih hword cs
      · rfl
    | nil =>
      obtain rfl | ⟨ds, rfl⟩ := h.cases
      · rfl
      · exact if_neg (Ne.symm he)

theorem takeWord?_append_tail (hplus : ∀ w ∈ vocabulary, '+' ∉ w.1.toList) (cs : List Char) :
    takeWord? vocabulary (cs ++ tail) = (takeWord? vocabulary cs).map fun p => (p.1, p.2 ++ tail) := by
  induction vocabulary with
  | nil => rfl
  | cons w vocabulary ih =>
    obtain ⟨word, meaning⟩ := w
    obtain ⟨hw, hplus⟩ := List.forall_mem_cons.1 hplus
    rw [takeWord?_cons, takeWord?_cons, dropStart?_append_tail h hw, ih hplus]
    cases Text.dropStart? word.toList cs <;> rfl

theorem takePart?_append_tail (hplus : ∀ w ∈ vocabulary, '+' ∉ w.1.toList) (cs : List Char) :
    takePart? vocabulary (cs ++ tail) = (takePart? vocabulary cs).map fun p => (p.1, p.2 ++ tail) := by
  rw [takePart?, takePart?, skipJoint_append_tail h, takeWord?_append_tail h hplus]
  cases takeWord? vocabulary (skipJoint cs) with
  | none => rfl
  | some p =>
    simp only [Option.map_some, Option.bind_eq_bind, Option.bind_some, skipJoint_append_tail h, takeDigits_append_tail h]
    rfl

theorem takePost?_append_tail (cs : List Char) :
    takePost? (cs ++ tail) = (takePost? cs).map fun p => (p.1, p.2 ++ tail) := by
  by_cases hdigit : ∃ c ds, cs = '-' :: c :: ds ∧ c.isDigit = true
  · obtain ⟨c, ds, rfl, hc⟩ := hdigit
    rw [List.cons_append, List.cons_append, takePost?_digit hc, takePost?_digit hc, ← List.cons_append,
      takeDigits_append_tail h]
    rfl
  · have hdigit' : ¬ ∃ c ds, cs ++ tail = '-' :: c :: ds ∧ c.isDigit = true := by
      rintro ⟨c, ds, hcs, hc⟩
      obtain ⟨rfl, htail⟩ | ⟨cs', rfl, hrest⟩ := List.append_eq_cons_iff.1 hcs
      · cases h '-' (by rw [htail]; rfl)
      obtain ⟨rfl, htail⟩ | ⟨ds', rfl, -⟩ := List.append_eq_cons_iff.1 hrest.symm
      · obtain rfl := h c (by rw [htail]; rfl)
        cases hc
      · exact hdigit ⟨c, ds', rfl, hc⟩
    rw [takePost?_word hdigit, takePost?_word hdigit', takePart?_append_tail h (by decide), Option.map_map, Option.map_map]
    rfl

end Behind

theorem optional_append_tail {take? : List Char → Option (α × List Char)}
    (htake : take? (cs ++ tail) = (take? cs).map fun p => (p.1, p.2 ++ tail)) :
    optional (take? (cs ++ tail)) (cs ++ tail) = ((optional (take? cs) cs).1, (optional (take? cs) cs).2 ++ tail) := by
  rw [htake]
  cases take? cs <;> rfl

variable {numbers : List (List Char)} {s : Spelling}

/-- A local part behind a text is the only thing that it adds. -/
theorem behind?_append (hplus : '+' ∉ cs) (h : IsTail tail) (hs : Spelling.behind? [] numbers (cs ++ tail) = some s) :
    takeLocal? tail = some s.localParts ∧
      ∀ numbers', Spelling.behind? [] numbers' cs = some { s with numbers := numbers', localParts := [] } := by
  -- Step by step the same is taken off the front, and what is left goes on with the local part.
  rw [Spelling.behind?, optional_append_tail (takePart?_append_tail h (by decide) cs)] at hs
  have h₁ := leavesAscii_optional_takePart? asciiWords_stage cs
  generalize hpre : optional (takePart? stageWords cs) cs = pre at hs h₁
  dsimp only at hs
  rw [optional_append_tail (takePost?_append_tail h pre.2)] at hs
  have h₂ := leavesAscii_optional_takePost? pre.2
  generalize hpost : optional (takePost? pre.2) pre.2 = post at hs h₂
  dsimp only at hs
  rw [optional_append_tail (takePart?_append_tail h (by decide) post.2)] at hs
  have h₃ := leavesAscii_optional_takePart? asciiWords_dev post.2
  generalize hdev : optional (takePart? devWords post.2) post.2 = dev at hs h₃
  obtain ⟨pieces, hlocal, rfl⟩ := Option.map_eq_some_iff.1 hs
  have hrest : dev.2 = [] :=
    eq_nil_of_takeLocal?_append (fun hm => hplus ((h₁.trans (h₂.trans h₃)).suffix.subset hm)) hlocal
  refine ⟨?_, fun numbers' => ?_⟩
  · rwa [hrest] at hlocal
  · simp only [Spelling.behind?, hpre, hpost, hdev, hrest]
    rfl

theorem takeLocal?_eq_some_nil_iff {pieces : List (List Char)} (h : IsTail tail) (hlocal : takeLocal? tail = some pieces) :
    pieces = [] ↔ tail = [] := by
  obtain rfl | ⟨ds, rfl⟩ := h.cases
  · cases hlocal
    exact iff_of_true rfl rfl
  · rw [takeLocal?, localPieces?] at hlocal
    split at hlocal
    · cases hlocal
      exact iff_of_false (Text.splitAt_ne_nil _ _) (List.cons_ne_nil _ _)
    · cases hlocal

theorem readLocal_eq_nil_iff {pieces : List (List Char)} {parts : List LocalPart} (h : readLocal pieces = .ok parts) :
    parts = [] ↔ pieces = [] := by
  cases pieces with
  | nil =>
    cases h
    exact iff_of_true rfl rfl
  | cons piece pieces =>
    rw [readLocal] at h
    split at h
    all_goals
      obtain ⟨part, -, h⟩ := bind_eq_ok_iff.1 h
      obtain ⟨parts, -, h⟩ := bind_eq_ok_iff.1 h
      cases h
      exact iff_of_false (List.cons_ne_nil _ _) (List.cons_ne_nil _ _)

variable {run : List Char} {runs : List (List Char)} {r e : Release}

theorem read_runs_eq_ok_iff (hruns : ∀ ds ∈ run :: runs, IsRun ds) (hmark : ∀ c ∈ tail.head?, c = '-' ∨ c = '+')
    (hblank : ∀ c ∈ tail, Text.isBlank c = false) (hepoch : '!' ∉ tail) :
    read (joined '.' (run :: runs) ++ tail) = .ok r ↔
      ∃ s, Spelling.behind? [] (run :: runs) (tail.map Char.toLower) = some s ∧ ofSpelling s = .ok r := by
  have hsettled : ∀ c ∈ joined '.' (run :: runs), IsSettled c := by
    intro c hc
    rcases mem_joined_runs hruns hc with hc | rfl
    · exact isSettled_of_isDigit hc
    · decide
  have htrim : Text.trim (joined '.' (run :: runs) ++ tail) = joined '.' (run :: runs) ++ tail := by
    apply Text.trim_of_noBlank
    intro c hc
    rcases List.mem_append.1 hc with hc | hc
    · exact (hsettled c hc).1
    · exact hblank c hc
  have hlower : (joined '.' (run :: runs)).map Char.toLower = joined '.' (run :: runs) :=
    (List.map_congr_left fun c hc => (hsettled c hc).2.1).trans (List.map_id _)
  have htail : takeNumbers (tail.map Char.toLower) = ([], [], tail.map Char.toLower) := by
    cases tail with
    | nil => rfl
    | cons c tail => obtain rfl | rfl := hmark c rfl <;> rfl
  have hepoch' : '!' ∉ tail.map Char.toLower := fun hm => hepoch (Text.mem_of_mem_map_toLower (by decide) hm)
  rw [read_eq_ok_iff, htrim, List.map_append, hlower, ofChars?_runs hruns htail hepoch']

theorem readAll_of_read_runs (hruns : ∀ ds ∈ run :: runs, IsRun ds) (hmark : ∀ c ∈ tail.head?, c = '-' ∨ c = '+')
    (hblank : ∀ c ∈ tail, Text.isBlank c = false) (hepoch : '!' ∉ tail)
    (h : read (joined '.' (run :: runs) ++ tail) = .ok r) : r.epoch = 0 ∧ readAll (run :: runs) = .ok r.numbers := by
  obtain ⟨s, hs, hr⟩ := (read_runs_eq_ok_iff hruns hmark hblank hepoch).1 h
  obtain ⟨hepoch, hnumbers, -⟩ := exists_of_behind? hs
  obtain ⟨he, hns, -⟩ := parts_of_ofSpelling hr
  rw [hepoch] at he
  rw [hnumbers] at hns
  exact ⟨(Except.ok.inj he).symm, hns⟩

theorem eq_of_ofSpelling (hr : ofSpelling s = .ok r)
    (he : ofSpelling { s with numbers := numbers, localParts := [] } = .ok e) (hnumbers : e.numbers = r.numbers) :
    r = { e with localParts := r.localParts } ∧ (r.localParts = [] ↔ s.localParts = []) := by
  obtain ⟨hepoch, -, ⟨n, hn, hpre⟩, hpost, hdev, hlocal⟩ := parts_of_ofSpelling hr
  obtain ⟨hepoch', -, ⟨n', hn', hpre'⟩, hpost', hdev', -⟩ := parts_of_ofSpelling he
  refine ⟨?_, readLocal_eq_nil_iff hlocal⟩
  obtain ⟨epoch, ns, pre, post, dev, parts⟩ := r
  obtain ⟨epoch', ns', pre', post', dev', parts'⟩ := e
  obtain rfl : epoch = epoch' := Except.ok.inj (hepoch.symm.trans hepoch')
  obtain rfl : n = n' := Except.ok.inj (hn.symm.trans hn')
  obtain rfl : post = post' := Except.ok.inj (hpost.symm.trans hpost')
  obtain rfl : dev = dev' := Except.ok.inj (hdev.symm.trans hdev')
  obtain rfl : ns' = ns := hnumbers
  obtain rfl : pre = pre' := hpre.trans hpre'.symm
  rfl

/-- Whatever digits the numbers of two texts are written with, a local part behind one of them is all that tells their
releases apart. -/
theorem eq_of_read_append {run' front : List Char} {runs' : List (List Char)} (hruns : ∀ ds ∈ run :: runs, IsRun ds)
    (hruns' : ∀ ds ∈ run' :: runs', IsRun ds) (hmark : ∀ c ∈ front.head?, c = '-') (hplus : '+' ∉ front)
    (htail : IsTail tail) (hblank : ∀ c ∈ front ++ tail, Text.isBlank c = false) (hepoch : '!' ∉ front ++ tail)
    (hr : read (joined '.' (run :: runs) ++ (front ++ tail)) = .ok r)
    (he : read (joined '.' (run' :: runs') ++ front) = .ok e) (hnumbers : e.numbers = r.numbers) :
    r = { e with localParts := r.localParts } ∧ (r.localParts = [] ↔ tail = []) := by
  have hmark' : ∀ c ∈ (front ++ tail).head?, c = '-' ∨ c = '+' := by
    intro c hc
    cases front with
    | nil => exact .inr (htail c hc)
    | cons d front => exact .inl (hmark c hc)
  have hfrontBlank : ∀ c ∈ front, Text.isBlank c = false := fun c hc => hblank c (List.mem_append_left _ hc)
  have hfrontEpoch : '!' ∉ front := fun hm => hepoch (List.mem_append_left _ hm)
  obtain ⟨s, hs, hr⟩ := (read_runs_eq_ok_iff hruns hmark' hblank hepoch).1 hr
  obtain ⟨s', hs', he⟩ := (read_runs_eq_ok_iff hruns' (fun c hc => .inl (hmark c hc)) hfrontBlank hfrontEpoch).1 he
  have hplus' : '+' ∉ front.map Char.toLower := fun hm => hplus (Text.mem_of_mem_map_toLower (by decide) hm)
  have htail' : IsTail (tail.map Char.toLower) := by
    obtain rfl | ⟨ds, rfl⟩ := htail.cases
    · exact htail
    · rintro _ ⟨⟩
      rfl
  rw [List.map_append] at hs
  obtain ⟨hlocal, hfront⟩ := behind?_append hplus' htail' hs
  rw [hfront] at hs'
  cases hs'
  obtain ⟨heq, hnil⟩ := eq_of_ofSpelling hr he hnumbers
  refine ⟨heq, hnil.trans ?_⟩
  rw [takeLocal?_eq_some_nil_iff htail' hlocal, List.map_eq_nil_iff]

theorem read_v (hblank : ∀ c ∈ cs, Text.isBlank c = false) (hv : ∀ c ∈ cs.head?, c.isDigit = true) :
    read ('v' :: cs) = read cs := by
  have htrim : Text.trim ('v' :: cs) = 'v' :: cs := Text.trim_of_noBlank (List.forall_mem_cons.2 ⟨rfl, hblank⟩)
  have hnone : Text.dropStart? ['v'] (cs.map Char.toLower) = none := by
    apply Text.dropStart?_singleton_eq_none
    intro c hc
    obtain ⟨d, hd, rfl⟩ := Option.map_eq_some_iff.1 (List.head?_map ▸ hc)
    have hdigit := hv d hd
    rw [Text.toLower_of_isDigit hdigit]
    exact Text.ne_of_isDigit hdigit rfl
  have hsome : Text.dropStart? ['v'] ('v' :: cs.map Char.toLower) = some (cs.map Char.toLower) :=
    Text.dropStart?_eq_some_iff.2 rfl
  have hcut : Spelling.ofChars? ('v' :: cs.map Char.toLower) = Spelling.ofChars? (cs.map Char.toLower) := by
    rw [Spelling.ofChars?, Spelling.ofChars?, hnone, hsome]
    rfl
  have hlower : ('v' :: cs).map Char.toLower = 'v' :: cs.map Char.toLower := rfl
  rw [read, read, htrim, Text.trim_of_noBlank hblank, hlower, hcut]

end RuntimeRanges.Release
