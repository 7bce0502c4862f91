import Mathlib.Data.List.Basic
import RuntimeRanges.FileTree
import RuntimeRanges.Host.Bundled
import RuntimeRanges.Proofs.Document.Json
import RuntimeRanges.Settings

/-!
Loading settings. What a file has to hold is said of its octets. All failures are faults of the settings but four: a
file that cannot be looked up, octets that are not UTF-8, an integer with too many digits, and values that are nested
too deep.
-/

namespace RuntimeRanges

namespace Settings

variable {env : Environment} {files : FileView} {file : FilePath} {path : Option String} {room : Nat}
  {fields : List (Scalar × Document)} {s : Settings} {e : LoadError}

/-- The fields are those of settings: they have no other names, and what is not given is as by default. -/
structure Describes (fields : List (Scalar × Document)) (s : Settings) : Prop where
  keys : ∀ f ∈ fields, f.1 = .text "directoryPrefix" ∨ f.1 = .text "warnOnly"
  directoryPrefix : Document.field? "directoryPrefix" fields = none ∧ s.directoryPrefix = Version.defaultPrefix ∨
    Document.field? "directoryPrefix" fields = some (.scalar s.directoryPrefix) ∧ s.directoryPrefix.IsString
  warnOnly : Document.field? "warnOnly" fields = none ∧ s.warnOnly = false ∨
    Document.field? "warnOnly" fields = some (.bool s.warnOnly)

theorem unknownKeys_eq_nil_iff :
    unknownKeys fields = [] ↔ ∀ f ∈ fields, f.1 = .text "directoryPrefix" ∨ f.1 = .text "warnOnly" := by
  have hknown (key : Scalar) :
      (!knownKeys.any (key = .text ·)) = true ↔ ¬ (key = .text "directoryPrefix" ∨ key = .text "warnOnly") := by
    simp [knownKeys]
  rw [unknownKeys, ← List.length_eq_zero_iff, List.length_mergeSort, List.length_eq_zero_iff, List.filter_eq_nil_iff,
    List.forall_mem_map]
  exact forall₂_congr fun f _ => by rw [hknown, Decidable.not_not]

theorem readPrefix_eq_ok_iff {start : Scalar} :
    readPrefix fields = .ok start ↔
      Document.field? "directoryPrefix" fields = none ∧ start = Version.defaultPrefix ∨
        Document.field? "directoryPrefix" fields = some (.scalar start) ∧ start.IsString := by
  rw [readPrefix]
  split
  · next h => simp [h, eq_comm]
  · next t h =>
    rw [h]
    constructor
    · rintro ⟨⟩
      exact .inr ⟨rfl, trivial⟩
    · rintro (⟨⟨⟩, -⟩ | ⟨⟨⟩, -⟩)
      rfl
  · next codes h =>
    rw [h]
    constructor
    · rintro ⟨⟩
      exact .inr ⟨rfl, trivial⟩
    · rintro (⟨⟨⟩, -⟩ | ⟨⟨⟩, -⟩)
      rfl
  · next d htext hunpaired h =>
    rw [h]
    refine iff_of_false nofun ?_
    rintro (⟨⟨⟩, -⟩ | ⟨⟨⟩, hstring⟩)
    cases start with
    | text t => exact htext t rfl
    | unpaired codes => exact hunpaired codes rfl
    | _ => exact hstring

theorem readWarnOnly_eq_ok_iff {b : Bool} :
    readWarnOnly fields = .ok b ↔
      Document.field? "warnOnly" fields = none ∧ b = false ∨ Document.field? "warnOnly" fields = some (.bool b) := by
  rw [readWarnOnly]
  generalize Document.field? "warnOnly" fields = found
  cases found with
  | none => simp [eq_comm]
  | some d =>
    cases d with
    | scalar s => cases s <;> simp
    | list items => simp
    | object fields => simp

theorem ofFields_eq_ok_iff : ofFields fields = .ok s ↔ Describes fields s := by
  rw [ofFields]
  split
  · next hkeys =>
    have hkeys := unknownKeys_eq_nil_iff.1 hkeys
    constructor
    · intro h
      obtain ⟨start, hstart, h⟩ := bind_eq_ok_iff.1 h
      obtain ⟨warnOnly, hwarn, h⟩ := bind_eq_ok_iff.1 h
      cases h
      exact ⟨hkeys, readPrefix_eq_ok_iff.1 hstart, readWarnOnly_eq_ok_iff.1 hwarn⟩
    · intro hs
      rw [readPrefix_eq_ok_iff.2 hs.directoryPrefix, readWarnOnly_eq_ok_iff.2 hs.warnOnly]
      rfl
  · next hkeys => exact iff_of_false nofun fun hs => hkeys (unknownKeys_eq_nil_iff.2 hs.keys)

/-- The file holds JSON in UTF-8, an object that describes the settings. -/
def Holds (room : Nat) (files : FileView) (file : FilePath) (s : Settings) : Prop :=
  ∃ octets cs fields, files.read file = .ok octets ∧ Text.Utf8.decode octets = .ok cs ∧
    Json.read room (Text.unifyLineEnds cs) = .ok (.object fields) ∧ Describes fields s

/-- The failures to load settings that are no faults of them. -/
inductive Escapes (room : Nat) (files : FileView) (file : FilePath) : LoadError → Prop
  | lookup {f : FileFault} (h : files.exists? file = .error f) : Escapes room files file (.lookup f file)
  | encoding {octets : List UInt8} {f : Text.Utf8.Fault} (h : files.read file = .ok octets)
      (hd : Text.Utf8.decode octets = .error f) : Escapes room files file (.encoding f)
  | numeral {octets : List UInt8} {cs : List Char} {e : Numeral.LimitError} (h : files.read file = .ok octets)
      (hd : Text.Utf8.decode octets = .ok cs) (hj : Json.read room (Text.unifyLineEnds cs) = .error (.numeral e)) :
      Escapes room files file (.numeral e)
  | tooDeep {octets : List UInt8} {cs : List Char} {e : Json.TooDeep} (h : files.read file = .ok octets)
      (hd : Text.Utf8.decode octets = .ok cs) (hj : Json.read room (Text.unifyLineEnds cs) = .error (.tooDeep e)) :
      Escapes room files file (.tooDeep e)

theorem exists_of_read {octets : List UInt8} (h : files.read file = .ok octets) : files.exists? file = .ok true := by
  rw [FileView.read] at h
  rw [FileView.exists?]
  split at h
  · next hl => rw [hl]
  all_goals cases h

theorem loadFile_eq_ok_iff : loadFile room files file = .ok s ↔ Holds room files file s := by
  rw [loadFile, FileView.readText, Holds]
  cases hread : files.read file with
  | error f => simp
  | ok octets =>
    cases hdecode : Text.Utf8.decode octets with
    | error f => simp [hdecode]
    | ok cs =>
      cases hjson : Json.read room (Text.unifyLineEnds cs) with
      | error err => cases err <;> simp [hdecode, hjson]
      | ok d =>
        cases d with
        | object fields => simp [hdecode, hjson, mapError_eq_ok_iff, ofDocument, ofFields_eq_ok_iff]
        | scalar v => simp [hdecode, hjson, ofDocument, Except.mapError]
        | list items => simp [hdecode, hjson, ofDocument, Except.mapError]

/-- The file that is asked for by an argument, else by a variable that is not empty. -/
def asked? (env : Environment) (path : Option String) : Option String :=
  path.or ((env.value? fileVariable).filter (· ≠ ""))

def chosen (env : Environment) (path : Option String) : FilePath :=
  .ofString ((asked? env path).getD defaultFile)

theorem choosePath_eq (env : Environment) (path : Option String) :
    choosePath env path = (chosen env path, (asked? env path).isSome) := by
  rw [choosePath.eq_def, chosen, asked?]
  cases path with
  | some s => rfl
  | none =>
    cases env.value? fileVariable with
    | none => rfl
    | some s =>
      by_cases hs : s = ""
      · rw [hs]
        rfl
      · rw [Option.none_or, Option.filter_some_pos (by simpa using hs)]
        split <;> simp_all

theorem load_of_lookup {f : FileFault} (h : env.files.exists? (chosen env path) = .error f) :
    load env path = .error (.lookup f (chosen env path)) := by
  rw [load, choosePath_eq]
  dsimp only
  rw [h]

theorem load_of_missing (h : env.files.exists? (chosen env path) = .ok false) :
    load env path = if (asked? env path).isSome then .error (.fault (.notFound (chosen env path))) else .ok {} := by
  rw [load, choosePath_eq]
  dsimp only
  rw [h]

theorem load_of_there (h : env.files.exists? (chosen env path) = .ok true) :
    load env path = loadFile (env.host.room .settings) env.files (chosen env path) := by
  rw [load, choosePath_eq]
  dsimp only
  rw [h]

theorem load_eq_ok_iff :
    load env path = .ok s ↔
      (asked? env path = none ∧ env.files.exists? (chosen env path) = .ok false ∧ s = {}) ∨
        Holds (env.host.room .settings) env.files (chosen env path) s := by
  have hthere (h : Holds (env.host.room .settings) env.files (chosen env path) s) :
      env.files.exists? (chosen env path) = .ok true := by
    obtain ⟨octets, _, _, hread, -⟩ := h
    exact exists_of_read hread
  cases hexists : env.files.exists? (chosen env path) with
  | error f =>
    rw [load_of_lookup hexists]
    rw [hexists] at hthere
    simpa using fun h => nomatch hthere h
  | ok there =>
    rw [hexists] at hthere
    cases there with
    | true =>
      rw [load_of_there hexists, loadFile_eq_ok_iff]
      simp
    | false =>
      have hnot : ¬ Holds (env.host.room .settings) env.files (chosen env path) s := fun h => nomatch hthere h
      rw [load_of_missing hexists, or_iff_left hnot]
      cases asked? env path <;> simp [eq_comm]

theorem escapes_of_loadFile (hf : ∀ f, e ≠ .fault f) (h : loadFile room files file = .error e) :
    Escapes room files file e := by
  rw [loadFile, FileView.readText] at h
  cases hread : files.read file with
  | error f =>
    simp only [hread] at h
    cases h
    exact absurd rfl (hf _)
  | ok octets =>
    simp only [hread] at h
    cases hdecode : Text.Utf8.decode octets with
    | error f =>
      simp only [hdecode] at h
      cases h
      exact .encoding hread hdecode
    | ok cs =>
      simp only [hdecode] at h
      cases hjson : Json.read room (Text.unifyLineEnds cs) with
      | error err =>
        simp only [hjson] at h
        cases err with
        | malformed c place =>
          cases h
          exact absurd rfl (hf _)
        | numeral err =>
          cases h
          exact .numeral hread hdecode hjson
        | tooDeep err =>
          cases h
          exact .tooDeep hread hdecode hjson
      | ok d =>
        simp only [hjson] at h
        cases hd : ofDocument d with
        | ok s =>
          rw [hd] at h
          cases h
        | error f =>
          rw [hd] at h
          cases h
          exact absurd rfl (hf f)

theorem escapes_of_load (hf : ∀ f, e ≠ .fault f) (h : load env path = .error e) :
    Escapes (env.host.room .settings) env.files (chosen env path) e := by
  cases hexists : env.files.exists? (chosen env path) with
  | error f =>
    rw [load_of_lookup hexists] at h
    cases h
    exact .lookup hexists
  | ok there =>
    cases there with
    | true =>
      rw [load_of_there hexists] at h
      exact escapes_of_loadFile hf h
    | false =>
      rw [load_of_missing hexists] at h
      split at h
      · cases h
        exact absurd rfl (hf _)
      · cases h

theorem Escapes.load_eq (h : Escapes (env.host.room .settings) env.files (chosen env path) e) :
    load env path = .error e := by
  cases h with
  | lookup hexists => exact load_of_lookup hexists
  | encoding hread hdecode =>
    rw [load_of_there (exists_of_read hread), loadFile, FileView.readText]
    simp only [hread, hdecode]
  | numeral hread hdecode hjson | tooDeep hread hdecode hjson =>
    rw [load_of_there (exists_of_read hread), loadFile, FileView.readText]
    simp only [hread, hdecode, hjson]

/-- A view with directories in the place of all files. -/
def closed (files : FileView) : FileView :=
  ⟨fun path => (files.lookup path).map fun _ => .directory⟩

theorem exists?_closed (files : FileView) (path : FilePath) : (closed files).exists? path = files.exists? path := by
  rw [FileView.exists?, FileView.exists?, closed]
  dsimp only
  cases h : files.lookup path with
  | error f => cases f <;> rfl
  | ok node => rfl

theorem not_holds_closed : ¬ Holds room (closed files) file s := by
  rintro ⟨octets, _, _, hread, -⟩
  rw [FileView.read, closed] at hread
  cases h : files.lookup file <;> simp [h, Except.map] at hread

theorem chosen_of_not_asked (h : asked? env path = none) : chosen env path = .ofString defaultFile := by
  rw [chosen, h]
  rfl

theorem load_default_iff :
    (∀ files, (∀ file, files.exists? file = env.files.exists? file) → load { env with files := files } path = .ok {}) ↔
      asked? env path = none ∧ env.files.exists? (.ofString defaultFile) = .ok false := by
  constructor
  · intro h
    rcases load_eq_ok_iff.1 (h (closed env.files) (exists?_closed env.files)) with ⟨hasked, hmissing, -⟩ | hholds
    · rw [chosen_of_not_asked hasked] at hmissing
      exact ⟨hasked, (exists?_closed ..).symm.trans hmissing⟩
    · exact absurd hholds not_holds_closed
  · rintro ⟨hasked, hmissing⟩ files hfiles
    have hasked' : asked? { env with files := files } path = none := hasked
    refine load_eq_ok_iff.2 (.inl ⟨hasked', ?_, rfl⟩)
    rw [chosen_of_not_asked hasked', hfiles, hmissing]

/-- Loading settings fails with a fault of them, or else in one of four ways. The default ones are given without
reading a file exactly if none is asked for and there is none with the default name; otherwise the chosen file has to
hold them. -/
theorem load_ends (env : Environment) (path : Option String) :
    (∀ e, (∀ f, e ≠ .fault f) →
        (load env path = .error e ↔ Escapes (env.host.room .settings) env.files (chosen env path) e)) ∧
      ((∀ files, (∀ file, files.exists? file = env.files.exists? file) →
          load { env with files := files } path = .ok {}) ↔
        asked? env path = none ∧ env.files.exists? (.ofString defaultFile) = .ok false) ∧
      ∀ s, load env path = .ok s ↔
        (asked? env path = none ∧ env.files.exists? (.ofString defaultFile) = .ok false ∧ s = {}) ∨
          Holds (env.host.room .settings) env.files (chosen env path) s := by
  refine ⟨?_, load_default_iff, ?_⟩
  · exact fun e hf => ⟨escapes_of_load hf, Escapes.load_eq⟩
  · intro s
    rw [load_eq_ok_iff]
    exact or_congr_left (and_congr_right fun hasked => by rw [chosen_of_not_asked hasked])

def settingsTree (octets : List UInt8) : Environment :=
  ⟨(FileTree.mk [([defaultFile], octets)] []).view, [], .bundled⟩

def warnOnlyChars : List Char :=
  ['\x7b', '"', 'w', 'a', 'r', 'n', 'O', 'n', 'l', 'y', '"', ':', 't', 'r', 'u', 'e', '\x7d']

theorem load_ends_sample :
    load (settingsTree (Text.Utf8.encode (String.ofList warnOnlyChars))) none = .ok { warnOnly := true } ∧
      load (settingsTree [0x7B, 0xFF]) none = .error (.encoding ⟨0xFF, 1, 2, .start⟩) := by
  constructor
  · have hread : (settingsTree (Text.Utf8.encode (String.ofList warnOnlyChars))).files.read (.ofString defaultFile) =
        .ok (Text.Utf8.encode (String.ofList warnOnlyChars)) := by decide +kernel
    have hdecode : Text.Utf8.decode (Text.Utf8.encode (String.ofList warnOnlyChars)) = .ok warnOnlyChars := by
      decide +kernel
    have hjson : Json.read (Host.bundled.room .settings) (Text.unifyLineEnds warnOnlyChars) =
        .ok (.object [("warnOnly", .bool true)]) := by rfl
    have hdescribes : Describes [("warnOnly", .bool true)] { warnOnly := true } := by
      have hstart : Document.field? "directoryPrefix" [("warnOnly", .bool true)] = none := by simp [Document.field?]
      have hwarn : Document.field? "warnOnly" [("warnOnly", .bool true)] = some (.bool true) := by
        simp [Document.field?]
      exact ⟨List.forall_mem_singleton.2 (.inr rfl), .inl ⟨hstart, rfl⟩, .inr hwarn⟩
    exact ((load_ends _ none).2.2 _).2 (.inr ⟨_, _, _, hread, hdecode, hjson, hdescribes⟩)
  · have hread : (settingsTree [0x7B, 0xFF]).files.read (.ofString defaultFile) = .ok [0x7B, 0xFF] := by decide +kernel
    have hdecode : Text.Utf8.decode [0x7B, 0xFF] = .error ⟨0xFF, 1, 2, .start⟩ := by decide +kernel
    refine ((load_ends (settingsTree [0x7B, 0xFF]) none).1 _ ?_).2 (.encoding hread hdecode)
    rintro f ⟨⟩

/-- A settings file with an octet that begins no character makes the loading fail without a fault of the settings. -/
theorem load_stray_octet : ∃ e, load (settingsTree [0xFF]) none = .error e ∧ ∀ f, e ≠ .fault f := by
  refine ⟨.encoding ⟨0xFF, 0, 1, .start⟩, by decide +kernel, ?_⟩
  rintro f ⟨⟩

end Settings

end RuntimeRanges
