import RuntimeRanges.Command.Arguments
import RuntimeRanges.Command.Output
import RuntimeRanges.Manifest.Entries
import RuntimeRanges.Settings

/-!
The loading of what commands need. A command that cannot load it reports the failure and ends with exit code
1; a few failures are beyond such a report and escape.
-/

namespace RuntimeRanges.Command

open Log (Traced)

/-- Why a command cannot load what it needs. -/
inductive LoadError
  | noValue (v : NoValue)
  | target (e : Version.ReadError)
  | settings (e : Settings.LoadError)
  | manifest (e : Manifest.LoadError)
  deriving Repr

/-- What a report says before the wording of the failure. -/
inductive Heading
  | plain
  | json
  | invalid
  deriving DecidableEq, Repr

def Heading.text : Heading → String
  | plain => ""
  | json => "Failed to read JSON: "
  | invalid => "Manifest failed validation:"

/-- The heading for a fault of a file. Only a file that is missing or whose name cannot be one has a report. -/
def headingOfFile (f : FileFault) (path : FilePath) : Except Escape Heading :=
  match f with
  | .missing => .ok .plain
  | .nulInName => .ok .invalid
  | _ => .error (.file f path)

def headingOfTarget (e : Version.ReadError) : Heading :=
  match e with
  | .fault _ => .plain
  | .numeral _ => .invalid

def headingOfSettings (e : Settings.LoadError) : Except Escape Heading :=
  match e with
  | .fault _ => .ok .plain
  | .lookup f path => headingOfFile f path
  | .encoding _ | .numeral _ => .ok .invalid
  | .tooDeep e => .error (.tooDeep e)

/-- The heading for a failure in a library, of which only some kinds have a report. -/
def headingOfLibrary (f : Library.Failure) : Except Escape Heading :=
  match f.kind with
  | .missing => .ok .plain
  | .json => .ok .json
  | .value => .ok .invalid
  | .yaml | .other => .error (.library f)

/-- The heading for a manifest that cannot be loaded. The wording of violations quotes values, which can be nested too
deep for that. -/
def headingOfManifest (quoteRoom : Nat) (e : Manifest.LoadError) : Except Escape Heading :=
  match e with
  | .file f path => headingOfFile f path
  | .json _ _ => .ok .json
  | .library f => headingOfLibrary f
  | .encoding _ | .numeral _ | .refused _ => .ok .invalid
  | .invalid violations =>
    if violations.all (·.fault.depth ≤ quoteRoom) then .ok .invalid else .error .quotedTooDeep
  | .tooDeep e => .error (.tooDeep e)
  | .shape f => .error (.shape f)

namespace LoadError

/-- The heading of the report of a failure, or the failure itself if there is no report for it. -/
def heading (quoteRoom : Nat) : LoadError → Except Escape Heading
  | noValue v => .error (.noValue v)
  | target e => .ok (headingOfTarget e)
  | settings e => headingOfSettings e
  | manifest e => headingOfManifest quoteRoom e

def wording : LoadError → Scalar
  | noValue v => .text v.message
  | target e => e.wording
  | settings e => e.wording
  | manifest e => e.wording

/-- The output of a command that cannot load what it needs. -/
def output (quoteRoom : Nat) (e : LoadError) : Except Escape Output := do
  let h ← e.heading quoteRoom
  return ⟨1, "", onStderr (.joined ["ERROR: ", h.text, e.wording, "\n"])⟩

end LoadError

def loadSettings (env : Environment) : Option (Given String) → Except LoadError Settings
  | none => (Settings.load env none).mapError .settings
  | some (.value path) => (Settings.load env (some path)).mapError .settings
  | some .nothing => .error (.noValue .namePath)

/-- Loads the schema of a manifest, if it is one of one's own. -/
def loadSchema (env : Environment) : Option (Given FilePath) → Except LoadError (Option Document)
  | none => (Manifest.loadSchema env.host env.files none).mapError .manifest
  | some (.value path) => (Manifest.loadSchema env.host env.files (some path)).mapError .manifest
  | some .nothing => .error (.noValue .readFile)

/-- Loads a manifest; its schema is read first. -/
def loadManifest (env : Environment) (input : Given FilePath) (schema : Option (Given FilePath)) :
    Except LoadError (List Manifest.Line) := do
  let schema ← loadSchema env schema
  match input with
  | .value path => (Manifest.loadWith env.host schema env.files path).mapError .manifest
  | .nothing => .error (.noValue .readFile)

/-- The beginning of directory names: the one that is asked for, else that of the settings; an empty one is
none. -/
def chooseStart (asked : Option String) (settings : Settings) : Option Scalar :=
  let start := (asked.map Scalar.text).getD settings.directoryPrefix
  if start.isEmpty then none else some start

/-- Reads the lines of a manifest, up to the first one that makes no entry or cannot go to its group. What comes
with the collection tells how many candidates go to their groups before one that cannot. -/
def collectLines (start : Option Scalar) (lines : List Manifest.Line) :
    Traced Escape (Collection × Option (Nat × Manifest.ShapeFault)) := do
  let (readings, unread) := Manifest.readings start lines
  let (readings, ungrouped) := Manifest.untilUngrouped start readings
  let collection ←
    (Collection.ofEntriesTraced start (readings.map Manifest.Reading.entry)).mapError .entries
  match ungrouped.or unread with
  | some f => Traced.lift (.error (.shape f))
  | none => return (collection, Manifest.groupedBefore start readings)

end RuntimeRanges.Command
