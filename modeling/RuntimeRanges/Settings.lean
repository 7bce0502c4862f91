import RuntimeRanges.Document.Json
import RuntimeRanges.Environment
import RuntimeRanges.Version.Reader

/-!
Settings of the commands, from a file in JSON. The file is the one that is asked for, else the one that a
variable names, else one with a fixed name, which need not be there.
-/

namespace RuntimeRanges

/-- The settings of a command. -/
structure Settings where
  directoryPrefix : Scalar := Version.defaultPrefix
  warnOnly : Bool := false
  deriving DecidableEq, Repr

namespace Settings

/-- What is wrong with settings. -/
inductive Fault
  | unknownKeys (keys : List Scalar)
  | prefixNotText
  | warnOnlyNotFlag
  | notFound (path : FilePath)
  | unreadable (f : FileFault) (path : FilePath)
  | malformed (c : Json.Complaint) (place : Json.Place)
  | notObject
  deriving DecidableEq, Repr

def Fault.wording : Fault → Scalar
  | unknownKeys keys => .joined ["Unknown configuration key(s): ", .separated ", " keys]
  | prefixNotText => "'directoryPrefix' must be a string"
  | warnOnlyNotFlag => "'warnOnly' must be a boolean"
  | notFound path => .text ("Configuration file not found: " ++ path.text)
  | unreadable f path => .text ("Failed to read configuration file: " ++ f.message path)
  | malformed c place =>
    .text ("Invalid JSON in configuration file: " ++ (Json.ReadError.malformed c place).message)
  | notObject => "Configuration must be a JSON object"

def knownKeys : List String :=
  ["directoryPrefix", "warnOnly"]

def textBefore (s t : Scalar) : Bool :=
  !decide (t.codes < s.codes)

/-- The keys of an object that settings do not have, in order. -/
def unknownKeys (fields : List (Scalar × Document)) : List Scalar :=
  ((fields.map Prod.fst).filter fun key => !knownKeys.any (key = .text ·)).mergeSort textBefore

/-- The beginning of directory names that the fields of an object give. -/
def readPrefix (fields : List (Scalar × Document)) : Except Fault Scalar :=
  match Document.field? "directoryPrefix" fields with
  | none => .ok Version.defaultPrefix
  | some (.text s) => .ok s
  | some (.scalar (.unpaired codes)) => .ok (.unpaired codes)
  | some _ => .error .prefixNotText

/-- Whether problems are only reported, as the fields of an object say. -/
def readWarnOnly (fields : List (Scalar × Document)) : Except Fault Bool :=
  match Document.field? "warnOnly" fields with
  | none => .ok false
  | some (.bool b) => .ok b
  | some _ => .error .warnOnlyNotFlag

def ofFields (fields : List (Scalar × Document)) : Except Fault Settings := do
  match unknownKeys fields with
  | [] => do
    let start ← readPrefix fields
    let warnOnly ← readWarnOnly fields
    return ⟨start, warnOnly⟩
  | keys => .error (.unknownKeys keys)

def ofDocument : Document → Except Fault Settings
  | .object fields => ofFields fields
  | _ => .error .notObject

def defaultFile : String := "libdef-resolver.json"

def fileVariable : String := "LIBDEF_RESOLVER_CONFIG"

/-- The settings file, and whether it was asked for. -/
def choosePath (env : Environment) (path : Option String) : FilePath × Bool :=
  match path with
  | some s => (.ofString s, true)
  | none =>
    match env.value? fileVariable with
    | none | some "" => (.ofString defaultFile, false)
    | some s => (.ofString s, true)

/-- Why settings cannot be loaded: a fault of the settings, or a failure to read their text or a value. -/
inductive LoadError
  | fault (f : Fault)
  | lookup (f : FileFault) (path : FilePath)
  | encoding (f : Text.Utf8.Fault)
  | numeral (e : Numeral.LimitError)
  | tooDeep (e : Json.TooDeep)
  deriving DecidableEq, Repr

def LoadError.wording : LoadError → Scalar
  | fault f => f.wording
  | lookup f path => .text (f.message path)
  | encoding f => .text f.message
  | numeral e => .text e.message
  | tooDeep e => .text e.message

/-- The settings in a file that is there, with room for values in one another. -/
def loadFile (room : Nat) (files : FileView) (path : FilePath) : Except LoadError Settings :=
  match files.readText path with
  | .error (.file f path) => .error (.fault (.unreadable f path))
  | .error (.encoding f) => .error (.encoding f)
  | .ok cs =>
    match Json.read room cs with
    | .error (.malformed c place) => .error (.fault (.malformed c place))
    | .error (.numeral e) => .error (.numeral e)
    | .error (.tooDeep e) => .error (.tooDeep e)
    | .ok d => (ofDocument d).mapError .fault

/-- Loads the settings. Only a file that was not asked for may be missing. -/
def load (env : Environment) (path : Option String) : Except LoadError Settings :=
  let (file, asked) := choosePath env path
  match env.files.exists? file with
  | .error f => .error (.lookup f file)
  | .ok false => if asked then .error (.fault (.notFound file)) else .ok {}
  | .ok true => loadFile (env.host.room .settings) env.files file

end Settings

end RuntimeRanges
