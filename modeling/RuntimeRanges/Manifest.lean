import RuntimeRanges.Candidate
import RuntimeRanges.Document.Json
import RuntimeRanges.Document.Schema
import RuntimeRanges.Environment

/-!
Manifests: documents that list definitions with the names of their ranges. A manifest is read from a file,
checked against a schema, and flattened into one line for each range.
-/

namespace RuntimeRanges

/-- The name of the kind of a scalar, as messages show it. -/
def Scalar.kind : Scalar → String
  | null => "NoneType"
  | bool _ => "bool"
  | int _ => "int"
  | float _ => "float"
  | text _ | unpaired _ => "str"
  | date _ => "datetime.date"
  | moment _ => "datetime.datetime"

/-- The name of the kind of a value, as messages show it. -/
def Document.kind : Document → String
  | .scalar s => s.kind
  | .list _ => "list"
  | .object _ => "dict"

namespace Manifest

/-- What a document lacks that its schema let pass though a manifest needs it. -/
inductive ShapeFault
  | noField (key : String)
  | fieldOfList
  | fieldOfText
  | fieldOf (value : Document)
  | itemsOf (value : Document)
  | keyOf (value : Document)
  | startOf (value : Document)
  | readOf (value : Document)
  | identity (r : Identity.Refusal)
  | numeral (e : Numeral.LimitError)
  deriving Repr

def ShapeFault.message : ShapeFault → String
  | noField key => Text.quoted key
  | fieldOfList => "list indices must be integers or slices, not str"
  | fieldOfText => "string indices must be integers, not 'str'"
  | fieldOf value => "'" ++ value.kind ++ "' object is not subscriptable"
  | itemsOf value => "'" ++ value.kind ++ "' object is not iterable"
  | keyOf value => "unhashable type: '" ++ value.kind ++ "'"
  | startOf value => "'" ++ value.kind ++ "' object has no attribute 'startswith'"
  | readOf value => "expected string or bytes-like object, got '" ++ value.kind ++ "'"
  | identity r => r.message
  | numeral e => e.message

/-- A field of a value that has to be an object. -/
def fieldOf (key : String) : Document → Except ShapeFault Document
  | .object fields =>
    match Document.field? (.text key) fields with
    | some d => .ok d
    | none => .error (.noField key)
  | .list _ => .error .fieldOfList
  | .text _ | .scalar (.unpaired _) => .error .fieldOfText
  | d => .error (.fieldOf d)

/-- The items of a value: those of a list, the characters of a text, or the names of an object's fields. -/
def itemsOf : Document → Except ShapeFault (List Document)
  | .list items => .ok items
  | .text s => .ok (s.toList.map fun c => .text (String.singleton c))
  | .scalar (.unpaired codes) => .ok (codes.map fun n => .scalar (.ofCodes [n]))
  | .object fields => .ok (fields.map fun (key, _) => .scalar key)
  | d => .error (.itemsOf d)

/-- A line of a manifest whose values are not known to be texts. -/
structure Line where
  name : Document
  version : Document
  range : Document
  deriving Repr

/-- The lines of a definition, one for each of the given ranges. -/
def definitionLines (definition : Document) : List Document → Except ShapeFault (List Line)
  | [] => .ok []
  | range :: ranges => do
    let name ← fieldOf "name" definition
    let version ← fieldOf "version" definition
    let lines ← definitionLines definition ranges
    return ⟨name, version, range⟩ :: lines

def linesOf : List Document → Except ShapeFault (List Line)
  | [] => .ok []
  | definition :: definitions => do
    let ranges ← fieldOf "ranges" definition
    let ranges ← itemsOf ranges
    let own ← definitionLines definition ranges
    let others ← linesOf definitions
    return own ++ others

/-- The lines of a manifest, one for each range of each definition. -/
def flatten (d : Document) : Except ShapeFault (List Line) := do
  let definitions ← fieldOf "definitions" d
  let definitions ← itemsOf definitions
  linesOf definitions

/-- The line that reports what the check against a schema of one's own has found. -/
def findingLine (f : Library.Finding) : Scalar :=
  let pointer := Scalar.separated "/" f.path
  .joined ["- ", if pointer = "" then "<root>" else pointer, ": ", f.message]

/-- Why a manifest cannot be loaded. -/
inductive LoadError
  | file (f : FileFault) (path : FilePath)
  | encoding (f : Text.Utf8.Fault)
  | json (c : Json.Complaint) (place : Json.Place)
  | numeral (e : Numeral.LimitError)
  | tooDeep (e : Json.TooDeep)
  | library (f : Library.Failure)
  | invalid (violations : List Schema.Violation)
  /-- The manifest does not keep to a schema of one's own. -/
  | refused (findings : List Library.Finding)
  | shape (f : ShapeFault)
  deriving Repr

def LoadError.wording : LoadError → Scalar
  | file f path => .text (f.message path)
  | encoding f => .text f.message
  | json c place => .text (Json.ReadError.malformed c place).message
  | numeral e => .text e.message
  | tooDeep e => .text e.message
  | library f => .text f.message
  | invalid violations => .text ("\n" ++ Text.separated "\n" (violations.map Schema.Violation.line))
  | refused findings => .joined ["\n", .separated "\n" (findings.map findingLine)]
  | shape f => .text f.message

def readText (files : FileView) (path : FilePath) : Except LoadError (List Char) :=
  match files.readText path with
  | .ok cs => .ok cs
  | .error (.file f path) => .error (.file f path)
  | .error (.encoding f) => .error (.encoding f)

def readJson (room : Nat) (cs : List Char) : Except LoadError Document :=
  match Json.read room cs with
  | .ok d => .ok d
  | .error (.malformed c place) => .error (.json c place)
  | .error (.numeral e) => .error (.numeral e)
  | .error (.tooDeep e) => .error (.tooDeep e)

/-- A failure to read YAML as commands report it: a text that is not YAML counts as a value out of place. -/
def ofYamlFailure (f : Library.Failure) : Library.Failure :=
  match f.kind with
  | .yaml => ⟨.value, "ValueError", " Failed to read YAML: " ++ f.message⟩
  | _ => f

def yamlSuffixes : List String :=
  [".yaml", ".yml"]

/-- The document in a file, in YAML or JSON by its suffix. -/
def loadDocument (host : Host) (files : FileView) (path : FilePath) : Except LoadError Document := do
  let cs ← readText files path
  if yamlSuffixes.contains path.suffix then (host.readYaml cs).mapError fun f => .library (ofYamlFailure f)
  else readJson (host.room .manifest) cs

def loadSchema (host : Host) (files : FileView) : Option FilePath → Except LoadError (Option Document)
  | none => .ok none
  | some path => do
    let cs ← readText files path
    let d ← readJson (host.room .schema) cs
    return some d

/-- Checks a document against the schema of manifests. Violations whose values cannot be written are not told. -/
def check (d : Document) : Except LoadError Unit :=
  match Schema.manifest.violations d with
  | [] => .ok ()
  | violations =>
    if violations.all (·.fault.isWritable) then .error (.invalid violations) else .error (.numeral .writing)

def checkOwn (host : Host) (schema d : Document) : Except LoadError Unit :=
  match host.checkSchema schema d with
  | .ok [] => .ok ()
  | .ok findings => .error (.refused findings)
  | .error f => .error (.library f)

/-- The lines of a document that keeps to a schema of one's own, or else to that of manifests. -/
def ofDocument (host : Host) (schema : Option Document) (d : Document) : Except LoadError (List Line) := do
  match schema with
  | none => check d
  | some schema => checkOwn host schema d
  (flatten d).mapError .shape

def loadWith (host : Host) (schema : Option Document) (files : FileView) (path : FilePath) :
    Except LoadError (List Line) := do
  let d ← loadDocument host files path
  ofDocument host schema d

/-- Loads a manifest; its schema is read first. -/
def load (host : Host) (files : FileView) (path : FilePath) (schemaPath : Option FilePath) :
    Except LoadError (List Line) := do
  let schema ← loadSchema host files schemaPath
  loadWith host schema files path

end Manifest

end RuntimeRanges
