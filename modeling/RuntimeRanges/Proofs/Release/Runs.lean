import RuntimeRanges.Proofs.Outcome
import RuntimeRanges.Proofs.Release.Plain
import RuntimeRanges.Proofs.Text.Pieces

/-!
The runs of digits that the numbers of a release are read from. All of them stand in the text of the release, so that a
release is refused for the length of a number only if its text has a run of digits of that length.
-/

namespace RuntimeRanges.Release

variable {α : Type} {vocabulary : List (String × α)} {a : α} {cs ds rest run : List Char} {s : Spelling} {e : ReadError}

/-- The run consists of digits and stands in the text. -/
def RunIn (run cs : List Char) : Prop :=
  run <:+: cs ∧ ∀ c ∈ run, c.isDigit = true

theorem RunIn.of_suffix (h : RunIn run ds) (hds : ds <:+ cs) : RunIn run cs :=
  ⟨h.1.trans hds.isInfix, h.2⟩

theorem runIn_nil (cs : List Char) : RunIn [] cs :=
  ⟨List.nil_infix, List.forall_mem_nil _⟩

theorem runIn_takeDigits (cs : List Char) : RunIn (takeDigits cs).1 cs :=
  ⟨(List.takeWhile_prefix _).isInfix, List.all_eq_true.1 List.all_takeWhile⟩

theorem runIn_takeEpoch (cs : List Char) : RunIn (takeEpoch cs).1 cs := by
  have hdigits := runIn_takeDigits cs
  rw [takeEpoch]
  split
  · exact runIn_nil cs
  · next heq =>
    rw [heq] at hdigits
    exact hdigits
  · exact runIn_nil cs

/-- The first number stands at the front of the text, where the digits in front of it are still to be put to it. -/
theorem runIn_takeNumbers (cs : List Char) :
    ((takeNumbers cs).1 <+: cs ∧ ∀ c ∈ (takeNumbers cs).1, c.isDigit = true) ∧
      ∀ run ∈ (takeNumbers cs).2.1, RunIn run cs := by
  fun_induction takeNumbers cs with
  | case1 c cs hc run more rest hrest ih =>
    rw [hrest] at ih
    obtain ⟨⟨hfront, hdigits⟩, hmore⟩ := ih
    have hrun : c :: run <:+: c :: cs := (List.cons_prefix_cons.2 ⟨rfl, hfront⟩).isInfix
    refine ⟨⟨List.nil_prefix, List.forall_mem_nil _⟩, List.forall_mem_cons.2 ⟨?_, fun run hmem => ?_⟩⟩
    · exact ⟨List.infix_cons hrun, List.forall_mem_cons.2 ⟨hc, hdigits⟩⟩
    · exact (hmore run hmem).of_suffix ((List.suffix_cons _ _).trans (List.suffix_cons _ _))
  | case2 => exact ⟨⟨List.nil_prefix, List.forall_mem_nil _⟩, List.forall_mem_nil _⟩
  | case3 c cs _ hc run more rest hrest ih =>
    rw [hrest] at ih
    obtain ⟨⟨hfront, hdigits⟩, hmore⟩ := ih
    refine ⟨⟨List.cons_prefix_cons.2 ⟨rfl, hfront⟩, List.forall_mem_cons.2 ⟨hc, hdigits⟩⟩, fun run hmem => ?_⟩
    exact (hmore run hmem).of_suffix (List.suffix_cons _ _)
  | case4 => exact ⟨⟨List.nil_prefix, List.forall_mem_nil _⟩, List.forall_mem_nil _⟩
  | case5 => exact ⟨⟨List.nil_prefix, List.forall_mem_nil _⟩, List.forall_mem_nil _⟩

theorem runIn_of_takePart? (hv : asciiWords vocabulary = true) (h : takePart? vocabulary cs = some ((a, ds), rest)) :
    RunIn ds cs := by
  simp only [takePart?, Option.bind_eq_bind] at h
  obtain ⟨⟨meaning, tail⟩, htail, h⟩ := Option.bind_eq_some_iff.1 h
  cases h
  have hword := (leavesAscii_skipJoint cs).trans (leavesAscii_of_takeWord? hv htail)
  exact (runIn_takeDigits _).of_suffix (hword.trans (leavesAscii_skipJoint tail)).suffix

theorem runIn_of_takePost? (h : takePost? cs = some (ds, rest)) : RunIn ds cs := by
  by_cases hdigit : ∃ c ds, cs = '-' :: c :: ds ∧ c.isDigit = true
  · obtain ⟨c, ds, rfl, hc⟩ := hdigit
    rw [takePost?_digit hc] at h
    cases h
    exact (runIn_takeDigits (c :: ds)).of_suffix (List.suffix_cons _ _)
  · rw [takePost?_word hdigit] at h
    obtain ⟨⟨⟨_, _⟩, _⟩, hpart, heq⟩ := Option.map_eq_some_iff.1 h
    cases heq
    exact runIn_of_takePart? (by decide) hpart

theorem eq_of_mem_optional {part : Option (α × List Char)} (h : a ∈ (optional part cs).1) :
    ∃ rest, part = some (a, rest) := by
  cases part with
  | none => cases h
  | some p =>
    cases h
    exact ⟨p.2, rfl⟩

/-- A piece of a local part that consists of digits has no joint, for which a point would stand in it. -/
theorem runIn_of_localPieces? {pieces : List (List Char)} (h : localPieces? cs = some pieces) (hrun : run ∈ pieces)
    (hdigits : ∀ c ∈ run, c.isDigit = true) : RunIn run cs := by
  rw [localPieces?] at h
  split at h
  · cases h
    refine ⟨Text.infix_of_infix_map ((Text.standIn_splitAt '.' _).all run hrun) fun c hc => ?_, hdigits⟩
    split at hc
    · cases hdigits _ hc
    · next hjoint => exact if_neg hjoint
  · cases h

theorem runIn_of_takeLocal? {pieces : List (List Char)} (h : takeLocal? cs = some pieces) (hrun : run ∈ pieces)
    (hdigits : ∀ c ∈ run, c.isDigit = true) : RunIn run cs := by
  rw [takeLocal?.eq_def] at h
  split at h
  · cases h
    cases hrun
  · exact (runIn_of_localPieces? h hrun hdigits).of_suffix (List.suffix_cons _ _)
  · cases h

/-- The runs of digits that the numbers of a release are read from. -/
inductive Spelling.HasRun (s : Spelling) : List Char → Prop
  | epoch : s.HasRun s.epoch
  | number {run : List Char} (h : run ∈ s.numbers) : s.HasRun run
  | pre {run : List Char} (h : s.pre.map Prod.snd = some run) : s.HasRun run
  | post {run : List Char} (h : s.post = some run) : s.HasRun run
  | dev {run : List Char} (h : s.dev = some run) : s.HasRun run
  | localPart {run : List Char} (h : run ∈ s.localParts) (hdigits : run.all Char.isDigit = true) : s.HasRun run

theorem runIn_of_behind? {epoch : List Char} {numbers : List (List Char)}
    (h : Spelling.behind? epoch numbers cs = some s) (hrun : s.HasRun run) :
    run = epoch ∨ run ∈ numbers ∨ RunIn run cs := by
  have hpre := leavesAscii_optional_takePart? asciiWords_stage cs
  have hpost := hpre.trans (leavesAscii_optional_takePost? _)
  have hdev := hpost.trans (leavesAscii_optional_takePart? asciiWords_dev _)
  obtain ⟨pieces, hlocal, rfl⟩ := Option.map_eq_some_iff.1 h
  cases hrun with
  | epoch => exact .inl rfl
  | number hmem => exact .inr (.inl hmem)
  | pre hpart =>
    obtain ⟨⟨stage, ds⟩, hmem, rfl⟩ := Option.map_eq_some_iff.1 hpart
    obtain ⟨rest, htake⟩ := eq_of_mem_optional hmem
    exact .inr (.inr (runIn_of_takePart? asciiWords_stage htake))
  | post hpart =>
    obtain ⟨rest, htake⟩ := eq_of_mem_optional hpart
    exact .inr (.inr ((runIn_of_takePost? htake).of_suffix hpre.suffix))
  | dev hpart =>
    obtain ⟨⟨⟨⟩, ds⟩, hmem, rfl⟩ := Option.map_eq_some_iff.1 hpart
    obtain ⟨rest, htake⟩ := eq_of_mem_optional hmem
    exact .inr (.inr ((runIn_of_takePart? asciiWords_dev htake).of_suffix hpost.suffix))
  | localPart hmem hdigits =>
    exact .inr (.inr ((runIn_of_takeLocal? hlocal hmem (List.all_eq_true.1 hdigits)).of_suffix hdev.suffix))

theorem runIn_of_ofChars? (h : Spelling.ofChars? cs = some s) (hrun : s.HasRun run) : RunIn run cs := by
  have hv := leavesAscii_v cs
  have hepoch := hv.trans (leavesAscii_takeEpoch _)
  have hnumbers := hepoch.trans (leavesAscii_takeNumbers _)
  rw [Spelling.ofChars?] at h
  dsimp only at h
  split at h
  · cases h
  · obtain ⟨⟨hfront, hdigits⟩, hmore⟩ := runIn_takeNumbers (takeEpoch ((Text.dropStart? ['v'] cs).getD cs)).2
    obtain rfl | hrun | hrun := runIn_of_behind? h hrun
    · exact (runIn_takeEpoch _).of_suffix hv.suffix
    · obtain rfl | hrun := List.mem_cons.1 hrun
      · exact RunIn.of_suffix ⟨hfront.isInfix, hdigits⟩ hepoch.suffix
      · exact (hmore run hrun).of_suffix hepoch.suffix
    · exact hrun.of_suffix hnumbers.suffix

theorem length_of_readDigits_eq_error (h : readDigits run = .error e) : Numeral.maxDigits < run.length := by
  obtain ⟨e', h, -⟩ := mapError_eq_error_iff.1 h
  rw [Numeral.read] at h
  split at h
  · cases h
  · next hlen => exact Nat.lt_of_not_le hlen

theorem exists_mem_of_readAll_eq_error {runs : List (List Char)} (h : readAll runs = .error e) :
    ∃ run ∈ runs, readDigits run = .error e := by
  induction runs with
  | nil => cases h
  | cons run runs ih =>
    obtain h | ⟨n, -, h⟩ := bind_eq_error_iff.1 h
    · exact ⟨run, List.mem_cons_self, h⟩
    · obtain h | ⟨ns, -, h⟩ := bind_eq_error_iff.1 h
      · obtain ⟨run', hmem, hrun⟩ := ih h
        exact ⟨run', List.mem_cons_of_mem _ hmem, hrun⟩
      · cases h

theorem exists_eq_of_readOptional_eq_error {o : Option (List Char)} (h : readOptional o = .error e) :
    ∃ run, o = some run ∧ readDigits run = .error e := by
  cases o with
  | none => cases h
  | some run => exact ⟨run, rfl, map_eq_error_iff.1 h⟩

theorem exists_mem_of_readLocal_eq_error {pieces : List (List Char)} (h : readLocal pieces = .error e) :
    ∃ run ∈ pieces, run.all Char.isDigit = true ∧ readDigits run = .error e := by
  induction pieces with
  | nil => cases h
  | cons piece pieces ih =>
    have hrest {part : LocalPart} (h : (readLocal pieces >>= fun parts => pure (part :: parts)) = .error e) :
        ∃ run ∈ piece :: pieces, run.all Char.isDigit = true ∧ readDigits run = .error e := by
      obtain h | ⟨parts, -, h⟩ := bind_eq_error_iff.1 h
      · obtain ⟨run, hmem, hrun⟩ := ih h
        exact ⟨run, List.mem_cons_of_mem _ hmem, hrun⟩
      · cases h
    rw [readLocal] at h
    split at h
    · next hdigits =>
      obtain h | ⟨part, -, h⟩ := bind_eq_error_iff.1 h
      · exact ⟨piece, List.mem_cons_self, hdigits, map_eq_error_iff.1 h⟩
      · exact hrest h
    · obtain h | ⟨part, -, h⟩ := bind_eq_error_iff.1 h
      · cases h
      · exact hrest h

theorem exists_hasRun_of_ofSpelling_eq_error (h : ofSpelling s = .error e) :
    ∃ run, s.HasRun run ∧ readDigits run = .error e := by
  obtain h | ⟨epoch, -, h⟩ := bind_eq_error_iff.1 h
  · exact ⟨s.epoch, .epoch, h⟩
  obtain h | ⟨numbers, -, h⟩ := bind_eq_error_iff.1 h
  · obtain ⟨run, hmem, hrun⟩ := exists_mem_of_readAll_eq_error h
    exact ⟨run, .number hmem, hrun⟩
  obtain h | ⟨pre, -, h⟩ := bind_eq_error_iff.1 h
  · obtain ⟨run, hpart, hrun⟩ := exists_eq_of_readOptional_eq_error h
    exact ⟨run, .pre hpart, hrun⟩
  obtain h | ⟨post, -, h⟩ := bind_eq_error_iff.1 h
  · obtain ⟨run, hpart, hrun⟩ := exists_eq_of_readOptional_eq_error h
    exact ⟨run, .post hpart, hrun⟩
  obtain h | ⟨dev, -, h⟩ := bind_eq_error_iff.1 h
  · obtain ⟨run, hpart, hrun⟩ := exists_eq_of_readOptional_eq_error h
    exact ⟨run, .dev hpart, hrun⟩
  obtain h | ⟨parts, -, h⟩ := bind_eq_error_iff.1 h
  · obtain ⟨run, hmem, hdigits, hrun⟩ := exists_mem_of_readLocal_eq_error h
    exact ⟨run, .localPart hmem hdigits, hrun⟩
  · cases h

/-- A text is refused as a release for the digits of a number only if it has a run of more digits than may be. -/
theorem exists_run_of_read_eq_numeral {e : Numeral.LimitError} (h : read cs = .error (.numeral e)) :
    ∃ run, RunIn run cs ∧ Numeral.maxDigits < run.length := by
  rw [read] at h
  split at h
  · cases h
  · next s hs =>
    obtain ⟨run, hmem, hread⟩ := exists_hasRun_of_ofSpelling_eq_error h
    obtain ⟨hin, hdigits⟩ := runIn_of_ofChars? hs hmem
    refine ⟨run, ⟨?_, hdigits⟩, length_of_readDigits_eq_error hread⟩
    refine (Text.infix_of_infix_map hin fun c hc => ?_).trans (Text.isInfix_trim cs)
    exact Text.toLower_of_lt (Nat.lt_of_le_of_lt (Text.toNat_of_isDigit (hdigits _ hc)).2 (by decide))

end RuntimeRanges.Release
