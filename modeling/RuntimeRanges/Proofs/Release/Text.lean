import RuntimeRanges.Proofs.Release.Plain

/-!
The text of a plain release reads back, and so does the text with a local part put behind it: every part of the release
is found again where it was written.
-/

namespace RuntimeRanges.Release

open Numeral (Writable)

variable {r : Release} {cs rest tail : List Char} {c : Char} {n : Nat}

def preChars : Option (Stage × Nat) → List Char
  | none => []
  | some (stage, n) => stage.chars ++ Numeral.digits n

def partChars (word : String) : Option Nat → List Char
  | none => []
  | some n => word.toList ++ Numeral.digits n

theorem Plain.chars_eq (h : r.Plain) :
    r.chars = joined '.' (r.numbers.map Numeral.digits) ++
      (preChars r.pre ++ (partChars ".post" r.post ++ partChars ".dev" r.dev)) := by
  obtain ⟨epoch, numbers, pre, post, dev, localParts⟩ := r
  obtain rfl : epoch = 0 := h.epoch
  obtain rfl : localParts = [] := h.localParts
  cases pre <;> cases post <;> cases dev <;> simp [chars, preChars, partChars]

/-- The characters other than digits that the text of a plain release can have. -/
def plainMarks : List Char :=
  ".abrcpostdev".toList

theorem mem_partChars {word : String} {o : Option Nat} (h : c ∈ partChars word o) :
    c.isDigit = true ∨ c ∈ word.toList := by
  cases o with
  | none => cases h
  | some n => exact (List.mem_append.1 h).symm.imp_left Numeral.isDigit_of_mem_digits

def IsRun (run : List Char) : Prop :=
  run ≠ [] ∧ ∀ c ∈ run, c.isDigit = true

theorem isRun_digits (n : Nat) : IsRun (Numeral.digits n) :=
  ⟨Numeral.digits_ne_nil n, fun _ => Numeral.isDigit_of_mem_digits⟩

theorem isRun_of_mem_map (ns : List Nat) : ∀ run ∈ ns.map Numeral.digits, IsRun run := by
  intro run hrun
  obtain ⟨n, -, rfl⟩ := List.mem_map.1 hrun
  exact isRun_digits n

theorem subset_joined {separator : Char} {pieces : List (List Char)} (h : cs ∈ pieces) : cs ⊆ joined separator pieces := by
  induction pieces with
  | nil => cases h
  | cons ds pieces ih =>
    cases pieces with
    | nil => exact List.mem_singleton.1 h ▸ List.Subset.refl _
    | cons es pieces =>
      obtain rfl | h := List.mem_cons.1 h
      · exact List.subset_append_left _ _
      · exact fun c hc => List.mem_append_right _ (List.mem_cons_of_mem _ (ih h hc))

theorem mem_joined_runs {runs : List (List Char)} (h : ∀ run ∈ runs, IsRun run) (hc : c ∈ joined '.' runs) :
    c.isDigit = true ∨ c = '.' := by
  induction runs with
  | nil => cases hc
  | cons run runs ih =>
    obtain ⟨⟨-, hdigits⟩, hruns⟩ := List.forall_mem_cons.1 h
    cases runs with
    | nil => exact .inl (hdigits c hc)
    | cons run' runs =>
      rcases List.mem_append.1 hc with hc | hc
      · exact .inl (hdigits c hc)
      · rcases List.mem_cons.1 hc with rfl | hc
        · exact .inr rfl
        · exact ih hruns hc

theorem Plain.mem_chars (h : r.Plain) (hc : c ∈ r.chars) : c.isDigit = true ∨ c ∈ plainMarks := by
  rw [h.chars_eq] at hc
  rcases List.mem_append.1 hc with hc | hc
  · rcases mem_joined_runs (isRun_of_mem_map r.numbers) hc with hc | rfl
    · exact .inl hc
    · exact .inr (by decide)
  rcases List.mem_append.1 hc with hc | hc
  · cases hp : r.pre with
    | none =>
      rw [hp] at hc
      cases hc
    | some p =>
      obtain ⟨stage, n⟩ := p
      rw [hp] at hc
      rcases List.mem_append.1 hc with hc | hc
      · have hstage : stage.chars ⊆ plainMarks := by cases stage <;> decide
        exact .inr (hstage hc)
      · exact .inl (Numeral.isDigit_of_mem_digits hc)
  have hword {word : String} {o : Option Nat} (hsub : word.toList ⊆ plainMarks) (hc : c ∈ partChars word o) :
      c.isDigit = true ∨ c ∈ plainMarks :=
    (mem_partChars hc).imp_right fun h => hsub h
  rcases List.mem_append.1 hc with hc | hc
  · exact hword (by decide) hc
  · exact hword (by decide) hc

/-- A character that reading a release leaves as it is, and that does not end an epoch. -/
def IsSettled (c : Char) : Prop :=
  Text.isBlank c = false ∧ c.toLower = c ∧ c ≠ '!'

instance : DecidablePred IsSettled := fun _ => inferInstanceAs (Decidable (_ ∧ _))

theorem isSettled_of_all {cs : List Char} (h : cs.all (fun c => decide (IsSettled c)) = true) : ∀ c ∈ cs, IsSettled c :=
  fun c hc => of_decide_eq_true (List.all_eq_true.1 h c hc)

theorem isSettled_of_isDigit (hc : c.isDigit = true) : IsSettled c :=
  ⟨Text.isBlank_of_isDigit hc, Text.toLower_of_isDigit hc, Text.ne_of_isDigit hc rfl⟩

theorem Plain.isSettled_of_mem_chars (h : r.Plain) (hc : c ∈ r.chars) : IsSettled c := by
  rcases h.mem_chars hc with hc | hc
  · exact isSettled_of_isDigit hc
  · exact isSettled_of_all (by decide) c hc

section Cutting

theorem isJoint_of_isDigit (hc : c.isDigit = true) : isJoint c = false := by
  simp only [isJoint, Bool.or_eq_false_iff, beq_eq_false_iff_ne]
  exact ⟨⟨Text.ne_of_isDigit hc rfl, Text.ne_of_isDigit hc rfl⟩, Text.ne_of_isDigit hc rfl⟩

theorem exists_digits_eq (n : Nat) : ∃ d ds, Numeral.digits n = d :: ds ∧ d.isDigit = true := by
  obtain ⟨d, ds, h⟩ := List.exists_cons_of_ne_nil (Numeral.digits_ne_nil n)
  exact ⟨d, ds, h, Numeral.isDigit_of_mem_digits (h ▸ List.mem_cons_self)⟩

theorem takeDigits_skipJoint_digits (n : Nat) (hrest : ∀ c ∈ rest.head?, c.isDigit = false) :
    takeDigits (skipJoint (Numeral.digits n ++ rest)) = (Numeral.digits n, rest) := by
  have hskip : skipJoint (Numeral.digits n ++ rest) = Numeral.digits n ++ rest := by
    obtain ⟨d, ds, h, hd⟩ := exists_digits_eq n
    rw [h, List.cons_append, skipJoint, isJoint_of_isDigit hd]
    rfl
  rw [hskip]
  exact takeDigits_append (fun c => Numeral.isDigit_of_mem_digits) hrest

theorem takeNumbers_point (hc : c.isDigit = true) (cs : List Char) :
    takeNumbers ('.' :: c :: cs) =
      ([], (takeNumbers (c :: cs)).1 :: (takeNumbers (c :: cs)).2.1, (takeNumbers (c :: cs)).2.2) := by
  rw [takeNumbers, if_pos hc, takeNumbers_cons_digit hc]

section Joined

variable {run : List Char} {runs : List (List Char)} (h : ∀ ds ∈ run :: runs, IsRun ds)

include h

theorem exists_joined_runs_eq (rest : List Char) :
    ∃ d ds, joined '.' (run :: runs) ++ rest = d :: ds ∧ d.isDigit = true := by
  obtain ⟨hne, hdigits⟩ := h run List.mem_cons_self
  obtain ⟨d, ds, rfl⟩ := List.exists_cons_of_ne_nil hne
  have hd : d.isDigit = true := hdigits d List.mem_cons_self
  cases runs with
  | nil => exact ⟨d, ds ++ rest, rfl, hd⟩
  | cons run' runs => exact ⟨d, _, rfl, hd⟩

/-- Runs of digits with points between them are taken as the numbers, up to where neither a digit nor a point goes on. -/
theorem takeNumbers_joined_runs (hrest : takeNumbers rest = ([], [], rest)) :
    takeNumbers (joined '.' (run :: runs) ++ rest) = (run, runs, rest) := by
  induction runs generalizing run with
  | nil =>
    obtain ⟨-, hdigits⟩ := h run List.mem_cons_self
    change takeNumbers (run ++ rest) = _
    rw [takeNumbers_append hdigits, hrest, List.append_nil]
  | cons run' runs ih =>
    obtain ⟨⟨-, hdigits⟩, hruns⟩ := List.forall_mem_cons.1 h
    have hsplit : joined '.' (run :: run' :: runs) ++ rest = run ++ '.' :: (joined '.' (run' :: runs) ++ rest) :=
      List.append_assoc ..
    have hrun' := ih hruns
    -- `takeNumbers` looks past the point for a digit, so the first character behind it has to be laid open.
    obtain ⟨d, ds, hds, hd⟩ := exists_joined_runs_eq hruns rest
    rw [hsplit, takeNumbers_append hdigits]
    rw [hds] at hrun' ⊢
    rw [takeNumbers_point hd, hrun', List.append_nil]

end Joined

theorem ofChars?_runs {run : List Char} {runs : List (List Char)} (hruns : ∀ ds ∈ run :: runs, IsRun ds)
    (htail : takeNumbers tail = ([], [], tail)) (hmark : '!' ∉ tail) :
    Spelling.ofChars? (joined '.' (run :: runs) ++ tail) = Spelling.behind? [] (run :: runs) tail := by
  have hv : Text.dropStart? ['v'] (joined '.' (run :: runs) ++ tail) = none := by
    apply Text.dropStart?_singleton_eq_none
    obtain ⟨d, ds, hds, hd⟩ := exists_joined_runs_eq hruns tail
    rw [hds]
    rintro _ ⟨⟩
    exact Text.ne_of_isDigit hd rfl
  have hepoch : '!' ∉ joined '.' (run :: runs) ++ tail := by
    intro hm
    rcases List.mem_append.1 hm with hm | hm
    · rcases mem_joined_runs hruns hm with hm | hm <;> cases hm
    · exact hmark hm
  have hne : run.isEmpty = false := List.isEmpty_eq_false_iff.2 (hruns run List.mem_cons_self).1
  rw [Spelling.ofChars?, hv, Option.getD_none, takeEpoch_of_noMark hepoch]
  simp only [takeNumbers_joined_runs hruns htail, hne]
  rfl

theorem takePart?_of_takeWord? {α : Type} {vocabulary : List (String × α)} {a : α}
    (hword : takeWord? vocabulary (skipJoint cs) = some (a, Numeral.digits n ++ rest))
    (hrest : ∀ c ∈ rest.head?, c.isDigit = false) :
    takePart? vocabulary cs = some ((a, Numeral.digits n), rest) := by
  rw [takePart?, hword]
  simp only [Option.bind_eq_bind, Option.bind_some, takeDigits_skipJoint_digits n hrest]
  rfl

theorem takeWord?_stage (stage : Stage) (n : Nat) (rest : List Char) :
    takeWord? stageWords (skipJoint (stage.chars ++ Numeral.digits n ++ rest)) = some (stage, Numeral.digits n ++ rest) := by
  obtain ⟨d, ds, h, hd⟩ := exists_digits_eq n
  have hl : 'l' ≠ d := (Text.ne_of_isDigit hd rfl).symm
  have he : 'e' ≠ d := (Text.ne_of_isDigit hd rfl).symm
  rw [h]
  cases stage <;> simp [Stage.chars, skipJoint, isJoint, takeWord?, stageWords, Text.dropStart?, hl, he]

/-- A pre-release is found where it was written, if what follows is none. -/
theorem optional_preChars (o : Option (Stage × Nat)) (hrest : ∀ c ∈ rest.head?, c.isDigit = false)
    (hnone : takePart? stageWords rest = none) :
    optional (takePart? stageWords (preChars o ++ rest)) (preChars o ++ rest) =
      (o.map fun p => (p.1, Numeral.digits p.2), rest) := by
  cases o with
  | none =>
    rw [preChars, List.nil_append, hnone]
    rfl
  | some p =>
    obtain ⟨stage, n⟩ := p
    rw [preChars, takePart?_of_takeWord? (takeWord?_stage stage n rest) hrest]
    rfl

theorem optional_postChars (o : Option Nat) (hrest : ∀ c ∈ rest.head?, c.isDigit = false)
    (hnone : takePost? rest = none) :
    optional (takePost? (partChars ".post" o ++ rest)) (partChars ".post" o ++ rest) = (o.map Numeral.digits, rest) := by
  cases o with
  | none =>
    rw [partChars, List.nil_append, hnone]
    rfl
  | some n =>
    have hword : takeWord? postWords (skipJoint (".post".toList ++ Numeral.digits n ++ rest)) =
        some ((), Numeral.digits n ++ rest) := rfl
    have hpost : takePost? (".post".toList ++ Numeral.digits n ++ rest) =
        (takePart? postWords (".post".toList ++ Numeral.digits n ++ rest)).map fun p => (p.1.2, p.2) := rfl
    rw [partChars, hpost, takePart?_of_takeWord? hword hrest]
    rfl

theorem optional_devChars (o : Option Nat) (hrest : ∀ c ∈ rest.head?, c.isDigit = false)
    (hnone : takePart? devWords rest = none) :
    optional (takePart? devWords (partChars ".dev" o ++ rest)) (partChars ".dev" o ++ rest) =
      (o.map fun n => ((), Numeral.digits n), rest) := by
  cases o with
  | none =>
    rw [partChars, List.nil_append, hnone]
    rfl
  | some n =>
    have hword : takeWord? devWords (skipJoint (".dev".toList ++ Numeral.digits n ++ rest)) =
        some ((), Numeral.digits n ++ rest) := rfl
    rw [partChars, takePart?_of_takeWord? hword hrest]
    rfl

/-- What may stand behind a plain release: nothing, or a local part. -/
def IsTail (tail : List Char) : Prop :=
  ∀ c ∈ tail.head?, c = '+'

theorem IsTail.cases (h : IsTail tail) : tail = [] ∨ ∃ cs, tail = '+' :: cs := by
  cases tail with
  | nil => exact .inl rfl
  | cons c cs =>
    obtain rfl := h c rfl
    exact .inr ⟨cs, rfl⟩

section Behind

variable (h : IsTail tail) (pre : Option (Stage × Nat)) (post dev : Option Nat)

include h

theorem isDigit_head?_dev : ∀ c ∈ (partChars ".dev" dev ++ tail).head?, c.isDigit = false := by
  cases dev with
  | some n => rintro _ ⟨⟩; rfl
  | none =>
    intro c hc
    rw [h c hc]
    rfl

theorem isDigit_head?_post :
    ∀ c ∈ (partChars ".post" post ++ (partChars ".dev" dev ++ tail)).head?, c.isDigit = false := by
  cases post with
  | some n => rintro _ ⟨⟩; rfl
  | none => exact isDigit_head?_dev h dev

theorem takePart?_dev_tail : takePart? devWords tail = none := by
  obtain rfl | ⟨cs, rfl⟩ := h.cases <;> rfl

theorem takePost?_dev : takePost? (partChars ".dev" dev ++ tail) = none := by
  cases dev with
  | some n => rfl
  | none => obtain rfl | ⟨cs, rfl⟩ := h.cases <;> rfl

theorem takePart?_stage_post :
    takePart? stageWords (partChars ".post" post ++ (partChars ".dev" dev ++ tail)) = none := by
  cases post with
  | some n => rfl
  | none =>
    cases dev with
    | some n => rfl
    | none => obtain rfl | ⟨cs, rfl⟩ := h.cases <;> rfl

theorem takeNumbers_behind :
    takeNumbers (preChars pre ++ (partChars ".post" post ++ (partChars ".dev" dev ++ tail))) =
      ([], [], preChars pre ++ (partChars ".post" post ++ (partChars ".dev" dev ++ tail))) := by
  cases pre with
  | some p =>
    obtain ⟨stage, n⟩ := p
    cases stage <;> rfl
  | none =>
    cases post with
    | some n => rfl
    | none =>
      cases dev with
      | some n => rfl
      | none => obtain rfl | ⟨cs, rfl⟩ := h.cases <;> rfl

end Behind

/-- The text of a plain release is cut into the parts that it was made of, whatever local part stands behind it. -/
theorem Plain.ofChars?_append (h : r.Plain) (htail : IsTail tail) (hmark : '!' ∉ tail) {pieces : List (List Char)}
    (hlocal : takeLocal? tail = some pieces) :
    Spelling.ofChars? (r.chars ++ tail) =
      some ⟨[], r.numbers.map Numeral.digits, r.pre.map fun p => (p.1, Numeral.digits p.2),
        r.post.map Numeral.digits, r.dev.map Numeral.digits, pieces⟩ := by
  obtain ⟨n, ns, hns⟩ := List.exists_cons_of_ne_nil h.numbers_ne_nil
  have hchars : r.chars ++ tail = joined '.' (r.numbers.map Numeral.digits) ++
      (preChars r.pre ++ (partChars ".post" r.post ++ (partChars ".dev" r.dev ++ tail))) := by
    simp only [h.chars_eq, List.append_assoc]
  have hbehind : '!' ∉ preChars r.pre ++ (partChars ".post" r.post ++ (partChars ".dev" r.dev ++ tail)) := by
    intro hm
    have hm : '!' ∈ r.chars ++ tail := hchars ▸ List.mem_append_right _ hm
    rcases List.mem_append.1 hm with hm | hm
    · exact (h.isSettled_of_mem_chars hm).2.2 rfl
    · exact hmark hm
  have hend : ∀ c ∈ tail.head?, c.isDigit = false := isDigit_head?_dev htail none
  rw [hchars, hns, List.map_cons,
    ofChars?_runs (isRun_of_mem_map (n :: ns)) (takeNumbers_behind htail r.pre r.post r.dev) hbehind]
  simp only [Spelling.behind?,
    optional_preChars r.pre (isDigit_head?_post htail r.post r.dev) (takePart?_stage_post htail r.post r.dev),
    optional_postChars r.post (isDigit_head?_dev htail r.dev) (takePost?_dev htail r.dev),
    optional_devChars r.dev hend (takePart?_dev_tail htail), hlocal]
  cases r.dev <;> rfl

end Cutting

theorem readDigits_digits (hn : Writable n) : readDigits (Numeral.digits n) = .ok n :=
  readDigits_digits_eq_ok_iff.2 ⟨hn, rfl⟩

theorem readAll_digits {ns : List Nat} (h : ∀ n ∈ ns, Writable n) : readAll (ns.map Numeral.digits) = .ok ns := by
  induction ns with
  | nil => rfl
  | cons n ns ih =>
    obtain ⟨hn, hns⟩ := List.forall_mem_cons.1 h
    rw [List.map_cons, readAll, readDigits_digits hn, ih hns]
    rfl

theorem readOptional_digits {o : Option Nat} (h : ∀ n ∈ o, Writable n) : readOptional (o.map Numeral.digits) = .ok o := by
  cases o with
  | none => rfl
  | some n =>
    rw [Option.map_some, readOptional, readDigits_digits (h n rfl)]
    rfl

theorem Plain.read_chars_append (h : r.Plain) (htail : IsTail tail) (hsettled : ∀ c ∈ tail, IsSettled c)
    {pieces : List (List Char)} {parts : List LocalPart} (hlocal : takeLocal? tail = some pieces)
    (hread : readLocal pieces = .ok parts) : read (r.chars ++ tail) = .ok { r with localParts := parts } := by
  have hall : ∀ c ∈ r.chars ++ tail, IsSettled c := by
    intro c hc
    rcases List.mem_append.1 hc with hc | hc
    · exact h.isSettled_of_mem_chars hc
    · exact hsettled c hc
  have hlower : (r.chars ++ tail).map Char.toLower = r.chars ++ tail :=
    (List.map_congr_left fun c hc => (hall c hc).2.1).trans (List.map_id _)
  rw [read, Text.trim_of_noBlank fun c hc => (hall c hc).1, hlower,
    h.ofChars?_append htail (fun hm => (hsettled _ hm).2.2 rfl) hlocal]
  have hpre : readOptional ((r.pre.map fun p => (p.1, Numeral.digits p.2)).map Prod.snd) = .ok (r.pre.map Prod.snd) := by
    have hw : ∀ n ∈ r.pre.map Prod.snd, Writable n := by
      intro n hn
      obtain ⟨p, hp, rfl⟩ := Option.map_eq_some_iff.1 hn
      exact h.pre p hp
    rw [← readOptional_digits hw, Option.map_map, Option.map_map]
    rfl
  have hepoch : readDigits [] = .ok 0 := rfl
  simp only [ofSpelling, hepoch, readAll_digits h.numbers, hpre, readOptional_digits h.post, readOptional_digits h.dev,
    hread, bind, Except.bind]
  obtain ⟨epoch, numbers, pre, post, dev, localParts⟩ := r
  obtain rfl : epoch = 0 := h.epoch
  cases pre <;> rfl

theorem Plain.read_chars (h : r.Plain) : read r.chars = .ok r := by
  have hread : read (r.chars ++ []) = .ok { r with localParts := [] } :=
    h.read_chars_append (by rintro _ ⟨⟩) (List.forall_mem_nil _) rfl rfl
  rw [List.append_nil] at hread
  rw [hread, ← h.localParts]

end RuntimeRanges.Release
