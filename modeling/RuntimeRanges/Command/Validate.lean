import RuntimeRanges.Command.Arguments
import RuntimeRanges.Command.Loading
import RuntimeRanges.Document.Indented
import RuntimeRanges.Log.Level
import RuntimeRanges.Report

/-!
The command that validates a manifest: it prints a report or a summary, and its exit code tells whether there
are problems.
-/

namespace RuntimeRanges.Command.Validate

open Log (Traced)

/-- What the command is asked for. -/
structure Options where
  input : Given FilePath
  schema : Option (Given FilePath) := none
  config : Option (Given String) := none
  start : Option String := none
  warnOnly : Bool := false
  asJson : Bool := false
  level : Option (Given String) := none
  deriving DecidableEq, Repr

def flags : List Flag :=
  [ ⟨"--input", true, true, []⟩, ⟨"--schema", true, false, []⟩, ⟨"--config", true, false, []⟩,
    ⟨"--prefix", true, false, []⟩, ⟨"--warn-only", false, false, []⟩, ⟨"--json", false, false, []⟩,
    ⟨"--log-level", true, false, ["DEBUG", "INFO", "WARNING", "ERROR", "CRITICAL"]⟩ ]

def Options.ofUses (uses : List Use) : Options where
  input := ((valueOf? "--input" uses).getD .nothing).map .ofString
  schema := (valueOf? "--schema" uses).map (·.map .ofString)
  config := valueOf? "--config" uses
  start := (valueOf? "--prefix" uses).map (·.getD "")
  warnOnly := (valueOf? "--warn-only" uses).isSome
  asJson := (valueOf? "--json" uses).isSome
  level := valueOf? "--log-level" uses

def Options.read (arguments : List String) : Except Stop Options :=
  (readArguments flags arguments).map .ofUses

example :
    (Options.read ["--in", "m.json", "--warn", "--log-level=debug"]).toOption =
      some { input := .value ⟨[], ["m.json"]⟩, warnOnly := true, level := some (.value "DEBUG") } := by
  decide +kernel

/-- The level at which events are shown, which without a wish stays as it was. -/
def Options.levelFrom (o : Options) (level : Nat) : Nat :=
  match o.level with
  | some (.value name) => (Log.level? name).getD level
  | _ => level

/-- Loads the settings and then the manifest. The level has to be known before. -/
def load (env : Environment) (o : Options) : Except LoadError (Settings × List Manifest.Line) :=
  if o.level = some .nothing then .error (.noValue .readText)
  else do
    let settings ← loadSettings env o.config
    let lines ← loadManifest env o.input o.schema
    return (settings, lines)

def validateLines (start : Option Scalar) (lines : List Manifest.Line) : Traced Escape Validation := do
  let (collection, ungrouped) ← collectLines start lines
  match ungrouped with
  | some (before, f) => do
    Traced.emitAll ((collection.candidates.take before).flatMap (·.version.reductionEvents))
    Traced.lift (.error (.shape f))
  | none => (Validation.ofCollectionTraced collection).mapError .entries

def render (asJson : Bool) (v : Validation) : Scalar :=
  if asJson then .text (v.report.toJson ++ "\n") else v.summary

def exitCode (warnOnly : Bool) (v : Validation) : Nat :=
  if v.isOk || warnOnly then 0 else 1

def run (env : Environment) (o : Options) : Traced Escape Output :=
  match load env o with
  | .error e => Traced.lift (e.output env.host.quoteRoom)
  | .ok (settings, lines) => do
    let v ← validateLines (chooseStart o.start settings) lines
    let stdout ← Traced.lift (onStdout (render o.asJson v))
    return ⟨exitCode (settings.warnOnly || o.warnOnly) v, stdout, ""⟩

end RuntimeRanges.Command.Validate
