import RuntimeRanges.Command.Resolve
import RuntimeRanges.FileTree
import RuntimeRanges.Host.Bundled
import RuntimeRanges.Proofs.Command.Output
import RuntimeRanges.Proofs.Manifest
import RuntimeRanges.Proofs.Resolution
import RuntimeRanges.Proofs.Validation

/-!
How commands end. A failure to load is reported with exit code 1, unless it is one of those that no report covers; once
everything is loaded only a number that is too large, or a summary that cannot be written, can keep a command from
ending with an exit code.
-/

namespace RuntimeRanges

namespace Collection

variable {start : Option Scalar} {es : List Entry}

theorem exists_error_of_numeral (h : ∀ e ∈ es, e.Textual)
    (hbad : ∃ e ∈ es, ∃ err, readRange start e.range = .error (.numeral err)) (candidates : List Candidate)
    (faults : Grouped Identity Version.Fault) :
    ∃ f, (addTraced start candidates faults es).outcome = .error f := by
  -- The ranges before the first bad one only add to what is collected, so the induction is over any collection.
  induction es generalizing candidates faults with
  | nil =>
    obtain ⟨e, he, -⟩ := hbad
    cases he
  | cons e es ih =>
    rw [List.forall_mem_cons] at h
    obtain ⟨htext, hrest⟩ := h
    have hk := htext.named.identity_eq
    have hlater (hread : ∀ err, readRange start e.range ≠ .error (.numeral err)) :
        ∃ e ∈ es, ∃ err, readRange start e.range = .error (.numeral err) := by
      obtain ⟨e', he', err, herr⟩ := hbad
      rcases List.mem_cons.1 he' with rfl | he'
      · exact absurd herr (hread err)
      · exact ⟨e', he', err, herr⟩
    cases hread : readRange start e.range with
    | ok v =>
      rw [outcome_addTraced_accept hk hread]
      exact ih hrest (hlater (by simp [hread])) _ _
    | error err =>
      cases err with
      | fault f =>
        rw [outcome_addTraced_reject hk (Identity.write_of_short htext.name.short htext.version.short) hread]
        exact ih hrest (hlater (by simp [hread])) _ _
      | numeral err =>
        refine ⟨.numeral err, ?_⟩
        rw [addTraced, Log.Traced.outcome_bind, Log.Traced.outcome_lift, hk, hread]
        rfl

end Collection

namespace Command

/-- The failures to load that no report covers: an option without its value, a file that cannot be looked up or opened
though it is not missing and its name can be one, values that are nested too deep to be read or to be quoted, and the
failures of libraries that are of no kind a command expects. -/
def LoadError.Unreported (quoteRoom : Nat) : LoadError → Prop
  | noValue _ => True
  | target _ => False
  | settings (.lookup f _) => f ≠ .missing ∧ f ≠ .nulInName
  | settings (.tooDeep _) => True
  | settings _ => False
  | manifest (.file f _) => f ≠ .missing ∧ f ≠ .nulInName
  | manifest (.tooDeep _) => True
  | manifest (.library f) => f.kind = .yaml ∨ f.kind = .other
  | manifest (.invalid violations) => ∃ v ∈ violations, quoteRoom < v.fault.depth
  | manifest _ => False

/-- The command prints the report of a failure to load, under one of three headings, and nothing else. -/
def Output.Reports (output : Output) (e : LoadError) : Prop :=
  ∃ heading ∈ ["", "Failed to read JSON: ", "Manifest failed validation:"],
    output = ⟨1, "", "ERROR: " ++ heading ++ onStderr e.wording ++ "\n"⟩

/-- A command that fails to load something reports it with exit code 1 and prints nothing else, or lets the failure
escape if there is no report for it. -/
def LoadError.Ends (quoteRoom : Nat) (e : LoadError) (outcome : Except Escape Output) : Prop :=
  (¬ e.Unreported quoteRoom ∧ ∃ output, outcome = .ok output ∧ output.Reports e) ∨
    (e.Unreported quoteRoom ∧ ∃ failure, outcome = .error failure)

namespace LoadError

variable {e : LoadError} {quoteRoom : Nat} {output : Output}

theorem text_mem (h : Heading) : h.text ∈ ["", "Failed to read JSON: ", "Manifest failed validation:"] := by
  cases h <;> decide

theorem reports_of_output (h : e.output quoteRoom = .ok output) : output.Reports e := by
  obtain ⟨heading, -, h⟩ := bind_eq_ok_iff.1 h
  refine ⟨heading.text, text_mem heading, ?_⟩
  rw [← Except.ok.inj h, onStderr_joined]
  simp [String.join, onStderr_text]

theorem escapes_heading : (∃ failure, e.output quoteRoom = .error failure) ↔
    ∃ failure, e.heading quoteRoom = .error failure := by
  rw [LoadError.output]
  cases e.heading quoteRoom with
  | ok h => exact iff_of_false nofun nofun
  | error failure => exact iff_of_true ⟨failure, rfl⟩ ⟨failure, rfl⟩

theorem escapes_file_iff (f : FileFault) (path : FilePath) :
    (∃ failure, headingOfFile f path = .error failure) ↔ f ≠ .missing ∧ f ≠ .nulInName := by
  cases f with
  | missing => exact iff_of_false nofun fun h => h.1 rfl
  | nulInName => exact iff_of_false nofun fun h => h.2 rfl
  | _ => exact iff_of_true ⟨_, rfl⟩ ⟨nofun, nofun⟩

theorem escapes_library_iff (f : Library.Failure) :
    (∃ failure, headingOfLibrary f = .error failure) ↔ f.kind = .yaml ∨ f.kind = .other := by
  rw [headingOfLibrary]
  cases f.kind <;> simp

theorem escapes_invalid_iff (violations : List Schema.Violation) :
    (∃ failure, headingOfManifest quoteRoom (.invalid violations) = .error failure) ↔
      ∃ v ∈ violations, quoteRoom < v.fault.depth := by
  rw [headingOfManifest]
  split
  · next h => exact iff_of_false nofun (by simpa using h)
  · next h => exact iff_of_true ⟨_, rfl⟩ (by simpa using h)

/-- A failure escapes exactly if no report covers it. Only that a document has not the shape of a manifest is left
out. -/
theorem escapes_iff (h : ∀ f, e ≠ .manifest (.shape f)) :
    (∃ failure, e.output quoteRoom = .error failure) ↔ e.Unreported quoteRoom := by
  rw [escapes_heading]
  cases e with
  | noValue v => exact iff_of_true ⟨_, rfl⟩ trivial
  | target e => exact iff_of_false nofun id
  | settings e =>
    cases e with
    | lookup f path => exact escapes_file_iff f path
    | tooDeep e => exact iff_of_true ⟨_, rfl⟩ trivial
    | fault _ | encoding _ | numeral _ => exact iff_of_false nofun id
  | manifest e =>
    cases e with
    | file f path => exact escapes_file_iff f path
    | library f => exact escapes_library_iff f
    | invalid violations => exact escapes_invalid_iff violations
    | tooDeep e => exact iff_of_true ⟨_, rfl⟩ trivial
    | encoding _ | json _ _ | numeral _ | refused _ => exact iff_of_false nofun id
    | shape f => exact absurd rfl (h f)

theorem ends_output (h : ∀ f, e ≠ .manifest (.shape f)) : e.Ends quoteRoom (e.output quoteRoom) := by
  cases ho : e.output quoteRoom with
  | error failure => exact .inr ⟨(escapes_iff h).1 ⟨failure, ho⟩, failure, rfl⟩
  | ok output =>
    refine .inl ⟨?_, output, rfl, reports_of_output ho⟩
    intro hu
    obtain ⟨failure, hf⟩ := (escapes_iff h).2 hu
    rw [ho] at hf
    cases hf

end LoadError

theorem loadManifest_cases (env : Environment) (input : Given FilePath) :
    (∃ es : List Entry, loadManifest env input none = .ok (es.map Entry.line) ∧ ∀ e ∈ es, e.Textual) ∨
      ∃ e, loadManifest env input none = .error e ∧ ∀ f, e ≠ .manifest (.shape f) := by
  cases input with
  | nothing => exact .inr ⟨_, rfl, nofun⟩
  | value path =>
    have hload : loadManifest env (.value path) none =
        (Manifest.loadWith env.host none env.files path).mapError .manifest := rfl
    rw [hload]
    rcases Manifest.loadWith_cases env.host env.files path with ⟨es, hes, htext⟩ | ⟨e, he, hshape⟩
    · exact .inl ⟨es, by rw [hes]; rfl, htext⟩
    · refine .inr ⟨.manifest e, by rw [he]; rfl, ?_⟩
      rintro f ⟨⟩
      exact hshape f rfl

theorem loadSettings_ne_shape {env : Environment} {config : Option (Given String)} {e : LoadError}
    (h : loadSettings env config = .error e) (f : Manifest.ShapeFault) : e ≠ .manifest (.shape f) := by
  rintro rfl
  rw [loadSettings.eq_def] at h
  split at h
  · cases hs : Settings.load env none <;> rw [hs] at h <;> cases h
  · next path =>
    cases hs : Settings.load env (some path) <;> rw [hs] at h <;> cases h
  · cases h

theorem Validate.load_cases (env : Environment) {o : Validate.Options} (ho : o.schema = none) :
    (∃ settings, ∃ es : List Entry, Validate.load env o = .ok (settings, es.map Entry.line) ∧ ∀ e ∈ es, e.Textual) ∨
      ∃ e, Validate.load env o = .error e ∧ ∀ f, e ≠ .manifest (.shape f) := by
  rw [Validate.load, ho]
  split
  · exact .inr ⟨_, rfl, nofun⟩
  · cases hs : loadSettings env o.config with
    | error e => exact .inr ⟨e, rfl, loadSettings_ne_shape hs⟩
    | ok settings =>
      rcases loadManifest_cases env o.input with ⟨es, hes, htext⟩ | ⟨e, he, hshape⟩
      · exact .inl ⟨settings, es, by rw [hes]; rfl, htext⟩
      · exact .inr ⟨e, by rw [he]; rfl, hshape⟩

theorem Resolve.readTarget_cases (target : Given String) :
    (∃ p, Resolve.readTarget target = .ok (.exact p)) ∨
      ∃ e, Resolve.readTarget target = .error e ∧ ∀ f, e ≠ .manifest (.shape f) := by
  cases target with
  | nothing => exact .inr ⟨_, rfl, nofun⟩
  | value text =>
    rw [Resolve.readTarget, Version.readTarget]
    split
    · exact .inr ⟨_, rfl, nofun⟩
    · next pieces _ =>
      cases Version.readParts text false pieces with
      | error e => exact .inr ⟨_, rfl, nofun⟩
      | ok p => exact .inl ⟨p, rfl⟩

theorem Resolve.load_cases (env : Environment) (o : Resolve.Options) :
    (∃ p settings, ∃ es : List Entry,
        Resolve.load env o = .ok (.exact p, settings, es.map Entry.line) ∧ ∀ e ∈ es, e.Textual) ∨
      ∃ e, Resolve.load env o = .error e ∧ ∀ f, e ≠ .manifest (.shape f) := by
  rw [Resolve.load]
  rcases Resolve.readTarget_cases o.target with ⟨p, hp⟩ | ⟨e, he, hshape⟩
  · rw [hp]
    cases hs : loadSettings env o.config with
    | error e => exact .inr ⟨e, rfl, loadSettings_ne_shape hs⟩
    | ok settings =>
      rcases loadManifest_cases env o.input with ⟨es, hes, htext⟩ | ⟨e, he, hshape⟩
      · exact .inl ⟨p, settings, es, by rw [hes]; rfl, htext⟩
      · exact .inr ⟨e, by rw [he]; rfl, hshape⟩
  · exact .inr ⟨e, by rw [he]; rfl, hshape⟩

/-- The beginning of directory names is the one that is asked for, else that of the settings; an empty one is none. -/
def StartOf (asked : Option String) (settings : Settings) (start : Option Scalar) : Prop :=
  ∃ text : Scalar, (∀ s, asked = some s → text = .text s) ∧ (asked = none → text = settings.directoryPrefix) ∧
    start = if text.isEmpty then none else some text

theorem startOf_iff {asked : Option String} {settings : Settings} {start : Option Scalar} :
    StartOf asked settings start ↔ start = chooseStart asked settings := by
  constructor
  · rintro ⟨text, hasked, hsettings, rfl⟩
    cases asked with
    | none =>
      rw [hsettings rfl]
      rfl
    | some s =>
      rw [hasked s rfl]
      rfl
  · rintro rfl
    refine ⟨(asked.map Scalar.text).getD settings.directoryPrefix, ?_, ?_, rfl⟩
    · rintro s rfl
      rfl
    · rintro rfl
      rfl

/-- A number that is too large in some range lets a command that has loaded everything escape. -/
def Oversized (start : Option Scalar) (es : List Entry) : Prop :=
  ∃ e ∈ es, ∃ err, Collection.readRange start e.range = .error (.numeral err)

variable {env : Environment} {es : List Entry} {settings : Settings}

theorem exists_error_of_oversized {start : Option Scalar} (h : ∀ e ∈ es, e.Textual) (hbad : Oversized start es) :
    ∃ f, Collection.ofEntries start es = .error f :=
  Collection.exists_error_of_numeral h hbad [] []

namespace Validate

variable {o : Options}

theorem outcome_run_of_error {e : LoadError} (h : load env o = .error e) :
    (run env o).outcome = e.output env.host.quoteRoom := by
  rw [run, h]
  rfl

theorem outcome_run_of_lines {ls : List Manifest.Line} (h : load env o = .ok (settings, ls)) :
    (run env o).outcome =
      (validateLines (chooseStart o.start settings) ls).outcome.bind fun v =>
        (onStdout (render o.asJson v)).map fun stdout =>
          ⟨exitCode (settings.warnOnly || o.warnOnly) v, stdout, ""⟩ := by
  rw [run, h]
  change (validateLines _ ls >>= _).outcome = _
  rw [Log.Traced.outcome_bind]
  cases (validateLines (chooseStart o.start settings) ls).outcome with
  | error f => rfl
  | ok v =>
    change (Log.Traced.lift (onStdout (render o.asJson v)) >>= _).outcome = _
    rw [Log.Traced.outcome_bind, Log.Traced.outcome_lift]
    change _ = (onStdout (render o.asJson v)).map _
    cases onStdout (render o.asJson v) <;> rfl

theorem outcome_run_of_ok (h : load env o = .ok (settings, es.map Entry.line)) (htext : ∀ e ∈ es, e.Textual) :
    (run env o).outcome =
      ((Validation.ofEntries (chooseStart o.start settings) es).mapError Escape.entries).bind fun v =>
        (onStdout (render o.asJson v)).map fun stdout =>
          ⟨exitCode (settings.warnOnly || o.warnOnly) v, stdout, ""⟩ := by
  rw [outcome_run_of_lines h, outcome_validateLines htext]

theorem exitCode_le_one (warnOnly : Bool) (v : Validation) : exitCode warnOnly v = 0 ∨ exitCode warnOnly v = 1 := by
  rw [exitCode]
  split
  · exact .inl rfl
  · exact .inr rfl

end Validate

namespace Resolve

variable {o : Options} {p : Parts}

theorem outcome_run_of_error {e : LoadError} (h : load env o = .error e) :
    (run env o).outcome = e.output env.host.quoteRoom := by
  rw [run, h]
  rfl

theorem outcome_run_of_ok (h : load env o = .ok (.exact p, settings, es.map Entry.line)) (htext : ∀ e ∈ es, e.Textual) :
    (run env o).outcome =
      ((Collection.ofEntries (chooseStart o.start settings) es).mapError Escape.entries).bind fun c =>
        ((resolve (.exact p) c.candidates).mapError fun e => .entries (.range e)).map fun candidates =>
          ⟨0, render candidates, String.join ((warnings c.faults).map onStderr)⟩ := by
  rw [run, h]
  change (collectLines _ (es.map Entry.line) >>= _).outcome = _
  rw [Log.Traced.outcome_bind, outcome_collectLines htext]
  cases Collection.ofEntries (chooseStart o.start settings) es with
  | error f => rfl
  | ok c =>
    change ((resolveTraced (.exact p) c.candidates).mapError _ >>= _).outcome = _
    rw [Log.Traced.outcome_bind, Log.Traced.outcome_mapError]
    change (resolve (.exact p) c.candidates).mapError _ >>= _ = ((resolve (.exact p) c.candidates).mapError _).map _
    cases resolve (.exact p) c.candidates <;> rfl

end Resolve

/-- How a command ends that has loaded entries: where all numbers are short, with exit code 0 or 1 if what it prints can
be written, and else with a failure that escapes; with such a failure as well where the number of some range cannot be
read. -/
structure Finishes (start : Option Scalar) (es : List Entry) (short encodable : Prop)
    (outcome : Except Escape Output) : Prop where
  exits : short → encodable → ∃ output, outcome = .ok output ∧ (output.exitCode = 0 ∨ output.exitCode = 1)
  unencodable : short → ¬ encodable → ∃ u, outcome = .error (.unencodable u)
  escapes : Oversized start es → ∃ f, outcome = .error (.entries f)

/-- What the command prints of the entries can be written: always in JSON, and else if the summary can. -/
def Validate.Writes (o : Validate.Options) (start : Option Scalar) (es : List Entry) : Prop :=
  o.asJson = true ∨ ∀ v, Validation.ofEntries start es = .ok v → v.summary.Encodable

theorem Validate.writes_iff_encodable {o : Validate.Options} {start : Option Scalar} {v : Validation}
    (hv : Validation.ofEntries start es = .ok v) :
    Validate.Writes o start es ↔ (Validate.render o.asJson v).Encodable := by
  have hsummary : (∀ v, Validation.ofEntries start es = .ok v → v.summary.Encodable) ↔ v.summary.Encodable := by
    rw [hv]
    exact ⟨fun h => h v rfl, fun h v' hv' => Except.ok.inj hv' ▸ h⟩
  rw [Validate.Writes, hsummary, Validate.render]
  split
  · next h => exact iff_of_true (.inl h) (Scalar.encodable_text _)
  · next h => exact or_iff_right h

theorem Validate.finishes {o : Validate.Options} (h : Validate.load env o = .ok (settings, es.map Entry.line))
    (htext : ∀ e ∈ es, e.Textual) :
    Finishes (chooseStart o.start settings) es (∀ e ∈ es, e.Short (chooseStart o.start settings))
      (Validate.Writes o (chooseStart o.start settings) es) (Validate.run env o).outcome := by
  rw [Validate.outcome_run_of_ok h htext]
  have hfound (hs : ∀ e ∈ es, e.Short (chooseStart o.start settings)) :
      ∃ v, Validation.ofEntries (chooseStart o.start settings) es = .ok v :=
    ⟨_, Validation.ofEntries_eq_found (fun e he => (htext e he).named) hs⟩
  constructor
  · intro hs hwrites
    obtain ⟨v, hv⟩ := hfound hs
    obtain ⟨stdout, hstdout⟩ := exists_onStdout ((Validate.writes_iff_encodable hv).1 hwrites)
    rw [hv]
    change ∃ output, (onStdout _).map _ = .ok output ∧ _
    rw [hstdout]
    exact ⟨_, rfl, Validate.exitCode_le_one _ _⟩
  · intro hs hnot
    obtain ⟨v, hv⟩ := hfound hs
    obtain ⟨u, hu⟩ := exists_unencodable (mt (Validate.writes_iff_encodable hv).2 hnot)
    rw [hv]
    change ∃ u, (onStdout _).map _ = .error (.unencodable u)
    rw [hu]
    exact ⟨u, rfl⟩
  · intro hbad
    obtain ⟨f, hf⟩ := exists_error_of_oversized htext hbad
    have hv : Validation.ofEntries (chooseStart o.start settings) es = .error f := by
      rw [Validation.ofEntries_eq_bind, hf]
      rfl
    rw [hv]
    exact ⟨f, rfl⟩

theorem Resolve.finishes {o : Resolve.Options} {p : Parts}
    (h : Resolve.load env o = .ok (.exact p, settings, es.map Entry.line)) (htext : ∀ e ∈ es, e.Textual) :
    Finishes (chooseStart o.start settings) es (p.Short ∧ ∀ e ∈ es, e.Short (chooseStart o.start settings)) True
      (Resolve.run env o).outcome := by
  rw [Resolve.outcome_run_of_ok h htext]
  constructor
  · rintro ⟨hp, hs⟩ -
    have hn : ∀ e ∈ es, e.Named := fun e he => (htext e he).named
    have hc : ∀ c ∈ Entry.accepted (chooseStart o.start settings) es, c.Short :=
      fun c hc => Entry.short_of_mem_accepted hn hs hc
    rw [Collection.ofEntries_eq hn hs]
    have hkept : resolve (.exact p) (Entry.accepted (chooseStart o.start settings) es) = .ok _ :=
      Candidate.outcome_selectTraced_exact hp hc
    change ∃ output, ((resolve (.exact p) (Entry.accepted _ es)).mapError _).map _ = .ok output ∧ _
    rw [hkept]
    exact ⟨_, rfl, .inl rfl⟩
  · exact fun _ hnot => absurd trivial hnot
  · intro hbad
    obtain ⟨f, hf⟩ := exists_error_of_oversized htext hbad
    rw [hf]
    exact ⟨f, rfl⟩

/-- A command that cannot load what it needs says so and ends with exit code 1, but for the failures that no report
covers; the others end with exit code 0 or 1 unless a number is too large or a summary cannot be written. -/
theorem run_reports_or_escapes (env : Environment) :
    (∀ o : Validate.Options, o.schema = none →
      (∃ e, Validate.load env o = .error e ∧ e.Ends env.host.quoteRoom (Validate.run env o).outcome) ∨
        ∃ settings, ∃ es : List Entry, Validate.load env o = .ok (settings, es.map Entry.line) ∧
          Finishes (chooseStart o.start settings) es (∀ e ∈ es, e.Short (chooseStart o.start settings))
            (Validate.Writes o (chooseStart o.start settings) es) (Validate.run env o).outcome) ∧
      ∀ o : Resolve.Options,
        (∃ e, Resolve.load env o = .error e ∧ e.Ends env.host.quoteRoom (Resolve.run env o).outcome) ∨
          ∃ p settings, ∃ es : List Entry, Resolve.load env o = .ok (.exact p, settings, es.map Entry.line) ∧
            Finishes (chooseStart o.start settings) es
              (p.Short ∧ ∀ e ∈ es, e.Short (chooseStart o.start settings)) True (Resolve.run env o).outcome := by
  constructor
  · intro o ho
    rcases Validate.load_cases env ho with ⟨settings, es, h, htext⟩ | ⟨e, h, hshape⟩
    · exact .inr ⟨settings, es, h, Validate.finishes h htext⟩
    · refine .inl ⟨e, h, ?_⟩
      rw [Validate.outcome_run_of_error h]
      exact LoadError.ends_output hshape
  · intro o
    rcases Resolve.load_cases env o with ⟨p, settings, es, h, htext⟩ | ⟨e, h, hshape⟩
    · exact .inr ⟨p, settings, es, h, Resolve.finishes h htext⟩
    · refine .inl ⟨e, h, ?_⟩
      rw [Resolve.outcome_run_of_error h]
      exact LoadError.ends_output hshape

theorem loadSettings_none (hv : env.value? Settings.fileVariable = none)
    (hf : env.files.exists? (.ofString Settings.defaultFile) = .ok false) : loadSettings env none = .ok {} := by
  have hpath : Settings.choosePath env none = (.ofString Settings.defaultFile, false) := by
    rw [Settings.choosePath, hv]
  rw [loadSettings, Settings.load, hpath]
  dsimp only
  rw [hf]
  rfl

theorem loadManifest_of_fileFault {path : FilePath} {f : FileFault} (h : env.files.read path = .error f) :
    loadManifest env (.value path) none = .error (.manifest (.file f path)) := by
  have htext : Manifest.readText env.files path = .error (.file f path) := by
    rw [Manifest.readText, FileView.readText, h]
  change (Manifest.loadWith env.host none env.files path).mapError _ = _
  rw [Manifest.loadWith, Manifest.loadDocument, htext]
  rfl

def manifestTree (text : String) : Environment :=
  ⟨(FileTree.mk [(["m.yaml"], text.toList.map fun c => c.toNat.toUInt8)] []).view, [], .bundled⟩

def directoryTree : Environment :=
  ⟨(FileTree.mk [] [["d"]]).view, [], .bundled⟩

theorem load_directoryTree {path : FilePath} {f : FileFault} (hf : directoryTree.files.read path = .error f) :
    Validate.load directoryTree { input := .value path } = .error (.manifest (.file f path)) := by
  have hsettings : loadSettings directoryTree none = .ok {} := loadSettings_none rfl (by decide +kernel)
  rw [Validate.load, if_neg nofun, hsettings]
  change loadManifest _ _ none >>= _ = _
  rw [loadManifest_of_fileFault hf]
  rfl

theorem run_reports_or_escapes_missing :
    ∃ o : Validate.Options, o.schema = none ∧
      ∃ output e, (Validate.run directoryTree o).outcome = .ok output ∧ output.Reports e := by
  have hread : directoryTree.files.read (.ofString "m.json") = .error .missing := by decide +kernel
  have hload := load_directoryTree hread
  refine ⟨{ input := .value (.ofString "m.json") }, rfl, ?_⟩
  rcases (run_reports_or_escapes directoryTree).1 { input := .value (.ofString "m.json") } rfl with
    ⟨e, he, hends⟩ | ⟨settings, es, hok, -⟩
  · rw [hload] at he
    cases he
    rcases hends with ⟨-, output, hrun, hreports⟩ | ⟨hu, -⟩
    · exact ⟨output, _, hrun, hreports⟩
    · exact absurd rfl hu.1
  · rw [hload] at hok
    cases hok

/-- A directory in the place of a manifest is a failure that nothing reports. -/
theorem validate_directory_escapes :
    ∃ o, Validate.Options.read ["--input", "d"] = .ok o ∧ o.schema = none ∧
      (Validate.run directoryTree o).outcome = .error (.file .isDirectory (.ofString "d")) := by
  have hread : directoryTree.files.read (.ofString "d") = .error .isDirectory := by decide +kernel
  refine ⟨{ input := .value (.ofString "d") }, by decide +kernel, rfl, ?_⟩
  rw [Validate.outcome_run_of_error (load_directoryTree hread)]
  rfl

end Command

end RuntimeRanges
