import RuntimeRanges.Proofs.Command

/-!
The command that validates a manifest, whenever it comes to an end: it reports the first load that fails, or what it
prints and its exit code agree with the validation of the entries. A schema of one's own lets values of any kind pass,
but then the command only comes to an end if all lines are entries.
-/

namespace RuntimeRanges

namespace Manifest

variable {start : Option Scalar} {l : Line} {ls : List Line} {r : Reading} {rs : List Reading}

theorem eq_of_identityPart {refusal : Identity.Refusal} {d : Document} {s : Scalar}
    (h : identityPart refusal d = .ok (s, none)) : d = .scalar s := by
  rw [identityPart.eq_def] at h
  split at h
  · split at h <;> cases h
    rfl
  · cases h
  · cases h
  · cases h

theorem eq_of_readRange {range : Scalar} (h : l.readRange start = .ok range) : l.range = .scalar range := by
  rw [Line.readRange] at h
  split at h
  · next hrange =>
    cases h
    exact hrange
  · next hrange =>
    cases h
    exact hrange
  · cases h

theorem eq_line_of_read (h : l.read start = .ok r) (hr : r.ungrouped = none) : l = r.entry.line := by
  obtain ⟨⟨name, atName⟩, hname, h⟩ := bind_eq_ok_iff.1 h
  obtain ⟨⟨version, atVersion⟩, hversion, h⟩ := bind_eq_ok_iff.1 h
  obtain ⟨range, hrange, h⟩ := bind_eq_ok_iff.1 h
  cases h
  obtain ⟨rfl, rfl⟩ := Option.or_eq_none_iff.1 hr
  rw [Entry.line, ← eq_of_identityPart hname, ← eq_of_identityPart hversion, ← eq_of_readRange hrange]

theorem eq_lines_of_readings (h : readings start ls = (rs, none)) (hr : ∀ r ∈ rs, r.ungrouped = none) :
    ls = (rs.map Reading.entry).map Entry.line := by
  induction ls generalizing rs with
  | nil =>
    cases h
    rfl
  | cons l ls ih =>
    rw [readings] at h
    cases hl : l.read start with
    | error f =>
      rw [hl] at h
      cases h
    | ok r =>
      rw [hl] at h
      obtain ⟨rfl, hunread⟩ := Prod.mk.inj h
      obtain ⟨hfirst, hrest⟩ := List.forall_mem_cons.1 hr
      rw [List.map_cons, List.map_cons, ← eq_line_of_read hl hfirst, ← ih (Prod.ext rfl hunread) hrest]

theorem untilUngrouped_eq_self (h : (untilUngrouped start rs).2 = none) : (untilUngrouped start rs).1 = rs := by
  induction rs with
  | nil => rfl
  | cons r rs ih =>
    rw [untilUngrouped] at h ⊢
    split at h
    · next hr =>
      split at h
      · have hnone : r.ungrouped = none := h
        rw [hnone] at hr
        cases hr
      · cases h
    · next hr =>
      rw [if_neg hr]
      exact congrArg (r :: ·) (ih h)

end Manifest

namespace Command

variable {start : Option Scalar} {ls : List Manifest.Line} {env : Environment}

theorem exists_entries_of_collectLines {c : Collection} (h : (collectLines start ls).outcome = .ok (c, none)) :
    ∃ es : List Entry, ls = es.map Entry.line ∧ Collection.ofEntries start es = .ok c := by
  rw [collectLines] at h
  cases hrs : Manifest.readings start ls with
  | mk rs unread =>
    rw [hrs] at h
    dsimp only at h
    rw [Log.Traced.outcome_bind, Log.Traced.outcome_mapError] at h
    obtain ⟨c', hc, hlast⟩ := bind_eq_ok_iff.1 h
    cases hor : (Manifest.untilUngrouped start rs).2.or unread with
    | some f =>
      rw [hor] at hlast
      cases hlast
    | none =>
      rw [hor] at hlast
      obtain ⟨hungrouped, hunread⟩ := Option.or_eq_none_iff.1 hor
      rw [Manifest.untilUngrouped_eq_self hungrouped] at hc hlast
      obtain ⟨rfl, hgrouped⟩ := Prod.mk.inj (Except.ok.inj hlast)
      rw [hunread] at hrs
      exact ⟨_, Manifest.eq_lines_of_readings hrs ((Manifest.groupedBefore_eq_none_iff start).1 hgrouped),
        mapError_eq_ok_iff.1 hc⟩

namespace Validate

variable {o : Options} {uses : List Use} {output : Output}

theorem exists_entries_of_validateLines {v : Validation} (h : (validateLines start ls).outcome = .ok v) :
    ∃ es : List Entry, ls = es.map Entry.line ∧ Validation.ofEntries start es = .ok v := by
  rw [validateLines, Log.Traced.outcome_bind] at h
  obtain ⟨⟨c, ungrouped⟩, hc, hlast⟩ := bind_eq_ok_iff.1 h
  cases ungrouped with
  | some found => cases hlast
  | none =>
    obtain ⟨es, rfl, hes⟩ := exists_entries_of_collectLines hc
    refine ⟨es, rfl, ?_⟩
    rw [Validation.ofEntries, Validation.ofEntriesTraced, Log.Traced.outcome_bind]
    exact bind_eq_ok_iff.2 ⟨c, hes, mapError_eq_ok_iff.1 hlast⟩

def IsGiven (name : String) (uses : List Use) : Prop :=
  ∃ u ∈ uses, u.name = name

instance (name : String) (uses : List Use) : Decidable (IsGiven name uses) :=
  inferInstanceAs (Decidable (∃ u ∈ uses, u.name = name))

theorem isSome_valueOf? (name : String) (uses : List Use) : (valueOf? name uses).isSome = true ↔ IsGiven name uses := by
  rw [valueOf?, Option.isSome_map, List.find?_isSome]
  simp [IsGiven]

/-- What the command leaves behind agrees with a validation. -/
structure Agrees (uses : List Use) (settings : Settings) (v : Validation) (output : Output) : Prop where
  stderr : output.stderr = ""
  json : IsGiven "--json" uses → output.stdout = v.report.toJson ++ "\n"
  summary : ¬ IsGiven "--json" uses → output.stdout.toList.map Char.toNat = v.summary.codes
  exitCode :
    output.exitCode =
      if v.isOk = true ∨ IsGiven "--warn-only" uses ∨ settings.warnOnly = true then 0 else 1

theorem agrees {uses : List Use} (settings : Settings) {v : Validation} {stdout : String}
    (h : onStdout (render (Options.ofUses uses).asJson v) = .ok stdout) :
    Agrees uses settings v
      ⟨exitCode (settings.warnOnly || (Options.ofUses uses).warnOnly) v, stdout, ""⟩ where
  stderr := rfl
  json hgiven := by
    have hjson : (Options.ofUses uses).asJson = true := (isSome_valueOf? _ uses).2 hgiven
    rw [render, if_pos hjson, onStdout_text] at h
    exact (Except.ok.inj h).symm
  summary hnot := by
    have hjson : ¬ (Options.ofUses uses).asJson = true := mt (isSome_valueOf? _ uses).1 hnot
    rw [render, if_neg hjson] at h
    exact (onStdout_eq_ok_iff.1 h).symm
  exitCode := by
    rw [Validate.exitCode]
    apply if_congr _ rfl rfl
    rw [Bool.or_eq_true, Bool.or_eq_true, ← isSome_valueOf?, or_comm (a := settings.warnOnly = true)]
    rfl

def warnOnlyFlag : Flag :=
  ⟨"--warn-only", false, false, []⟩

theorem readArguments_warnOnly {arguments : List String} (h : readArguments flags arguments = .ok uses) :
    readArguments flags ("--warn-only" :: arguments) = .ok (⟨"--warn-only", .nothing⟩ :: uses) := by
  obtain ⟨classified, hclassified, h⟩ := bind_eq_ok_iff.1 h
  obtain ⟨⟨uses', superfluous⟩, happly, h⟩ := bind_eq_ok_iff.1 h
  have hall : classifyAll flags ("--warn-only" :: arguments) =
      .ok (("--warn-only", .option (.flag warnOnlyFlag) none) :: classified) := by
    have hflag : classify flags "--warn-only".toList = .ok (.option (.flag warnOnlyFlag) none) := by rfl
    rw [classifyAll, if_neg (by decide), hflag, mapError_eq_ok_iff.1 hclassified]
    rfl
  have happly' : apply (("--warn-only", .option (.flag warnOnlyFlag) none) :: classified) =
      .ok (⟨"--warn-only", .nothing⟩ :: uses', superfluous) := by
    change apply.add (.ok ⟨"--warn-only", .nothing⟩) (apply classified) = _
    rw [happly]
    rfl
  -- The flag that is added is not one of those that have to be given.
  have hmissing : (flags.filter fun f => f.isRequired && !(Use.mk "--warn-only" .nothing :: uses').any (·.name = f.name)) =
      flags.filter fun f => f.isRequired && !uses'.any (·.name = f.name) := by
    have hother : ∀ f ∈ flags, f.isRequired = true → decide ("--warn-only" = f.name) = false := by decide
    apply List.filter_congr
    intro f hf
    cases hr : f.isRequired with
    | false => rfl
    | true => rw [List.any_cons, hother f hf hr, Bool.false_or]
  dsimp only at h
  rw [readArguments, hall]
  change (apply _ >>= _) = _
  rw [happly']
  change (if !(flags.filter _).isEmpty then _ else _) = _
  rw [hmissing]
  split at h
  · cases h
  · next hpresent =>
    rw [if_neg hpresent]
    split at h
    · cases h
    · next hknown =>
      cases h
      rw [if_neg hknown]

theorem valueOf?_cons (name : String) (u : Use) (uses : List Use) :
    valueOf? name (u :: uses) = (valueOf? name uses).or (if u.name = name then some u.value else none) := by
  rw [valueOf?, List.reverse_cons, List.find?_append, Option.map_or, List.find?_singleton]
  by_cases h : u.name = name <;> simp [h, valueOf?]

theorem ofUses_warnOnly (uses : List Use) :
    Options.ofUses (⟨"--warn-only", .nothing⟩ :: uses) = { Options.ofUses uses with warnOnly := true } := by
  have hsame {name : String} (h : "--warn-only" ≠ name) :
      valueOf? name (⟨"--warn-only", .nothing⟩ :: uses) = valueOf? name uses := by
    rw [valueOf?_cons, if_neg h, Option.or_none]
  have hset : (valueOf? "--warn-only" (⟨"--warn-only", .nothing⟩ :: uses)).isSome = true :=
    (isSome_valueOf? _ _).2 ⟨_, List.mem_cons_self, rfl⟩
  rw [Options.ofUses, hset, hsame (by decide), hsame (by decide), hsame (by decide), hsame (by decide), hsame (by decide),
    hsame (by decide)]
  rfl

theorem outcome_run_warnOnly (h : (run env o).outcome = .ok output) (warnOnly : Bool) :
    ∃ output', (run env { o with warnOnly }).outcome = .ok output' ∧ output'.stdout = output.stdout ∧
      output'.stderr = output.stderr := by
  cases hload : load env o with
  | error e =>
    rw [outcome_run_of_error hload] at h
    exact ⟨output, (outcome_run_of_error (o := { o with warnOnly }) hload).trans h, rfl, rfl⟩
  | ok loaded =>
    obtain ⟨settings, ls⟩ := loaded
    rw [outcome_run_of_lines hload] at h
    obtain ⟨v, hv, hprinted⟩ := bind_eq_ok_iff.1 h
    obtain ⟨stdout, hstdout, rfl⟩ := map_eq_ok_iff.1 hprinted
    refine ⟨⟨exitCode (settings.warnOnly || warnOnly) v, stdout, ""⟩, ?_, rfl, rfl⟩
    rw [outcome_run_of_lines (o := { o with warnOnly }) hload]
    exact bind_eq_ok_iff.2 ⟨v, hv, map_eq_ok_iff.2 ⟨stdout, hstdout, rfl⟩⟩

theorem load_of_run (h : (run env o).outcome = .ok output) :
    load env o = loadSettings env o.config >>= fun settings =>
      loadManifest env o.input o.schema >>= fun lines => pure (settings, lines) := by
  -- A level without its value fails before anything is loaded, and there is no report for it.
  have hlevel : o.level ≠ some .nothing := by
    intro hnone
    have hload : load env o = .error (.noValue .readText) := if_pos hnone
    rw [outcome_run_of_error hload] at h
    cases h
  exact if_neg hlevel

end Validate

end Command

end RuntimeRanges
