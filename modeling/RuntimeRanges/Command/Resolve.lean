import RuntimeRanges.Command.Arguments
import RuntimeRanges.Command.Loading
import RuntimeRanges.Document.Indented

/-!
The command that resolves a target among the entries of a manifest: it prints the candidates that cover the
target, and warns of entries that cannot be read.
-/

namespace RuntimeRanges.Command.Resolve

open Log (Traced)

/-- What the command is asked for. -/
structure Options where
  target : Given String
  input : Given FilePath
  config : Option (Given String) := none
  start : Option String := none
  deriving DecidableEq, Repr

def flags : List Flag :=
  [ ⟨"--target", true, true, []⟩, ⟨"--input", true, true, []⟩, ⟨"--config", true, false, []⟩,
    ⟨"--prefix", true, false, []⟩ ]

def Options.ofUses (uses : List Use) : Options where
  target := (valueOf? "--target" uses).getD .nothing
  input := ((valueOf? "--input" uses).getD .nothing).map .ofString
  config := valueOf? "--config" uses
  start := (valueOf? "--prefix" uses).map (·.getD "")

def Options.read (arguments : List String) : Except Stop Options :=
  (readArguments flags arguments).map .ofUses

def readTarget : Given String → Except LoadError Version
  | .value text => (Version.readTarget text).mapError .target
  | .nothing => .error (.noValue .readText)

/-- Reads the target, and loads the settings and then the manifest. -/
def load (env : Environment) (o : Options) :
    Except LoadError (Version × Settings × List Manifest.Line) := do
  let target ← readTarget o.target
  let settings ← loadSettings env o.config
  let lines ← loadManifest env o.input none
  return (target, settings, lines)

def warning (identity : Identity) (f : Version.Fault) : Scalar :=
  .joined ["WARNING: skipping ", identity.label, ": ", f.wording, "\n"]

/-- The warnings of entries that cannot be read, those of one identity together. -/
def warnings (faults : Grouped Identity Version.Fault) : List Scalar :=
  faults.flatMap fun (identity, faults) => faults.map (warning identity)

def render (candidates : List Candidate) : String :=
  (Document.list (candidates.map Candidate.toDocument)).toJson ++ "\n"

def run (env : Environment) (o : Options) : Traced Escape Output :=
  match load env o with
  | .error e => Traced.lift (e.output env.host.quoteRoom)
  | .ok (target, settings, lines) => do
    let (collection, _) ← collectLines (chooseStart o.start settings) lines
    let candidates ← (resolveTraced target collection.candidates).mapError fun e => .entries (.range e)
    return ⟨0, render candidates, String.join ((warnings collection.faults).map onStderr)⟩

end RuntimeRanges.Command.Resolve
