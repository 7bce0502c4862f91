import RuntimeRanges.Document

/-!
Schemas: the shapes that documents may have. Checking a document lists every violation with the path to the
value that is at fault.
-/

namespace RuntimeRanges

/-- The shape that a schema demands. -/
inductive Schema
  /-- A text, which may have to be non-empty. -/
  | text (nonEmpty : Bool)
  /-- A list of documents of one shape. -/
  | list (items : Schema)
  /-- An object with exactly the given fields, all of them required. -/
  | object (properties : List (String × Schema))
  deriving Repr

namespace Schema

/-- A step from a document to one of its parts. -/
inductive PathStep
  | key (name : String)
  | item (index : Nat)
  deriving DecidableEq, Repr

def PathStep.text : PathStep → String
  | key name => name
  | item index => toString index

def PathStep.compare : PathStep → PathStep → Ordering
  | key a, key b => Ord.compare a b
  | key _, item _ => .lt
  | item _, key _ => .gt
  | item a, item b => Ord.compare a b

/-- Compares paths; a path comes before those that go on from it. -/
def comparePaths : List PathStep → List PathStep → Ordering
  | [], [] => .eq
  | [], _ :: _ => .lt
  | _ :: _, [] => .gt
  | a :: as, b :: bs => (a.compare b).then (comparePaths as bs)

/-- What is wrong with a part of a document. -/
inductive Fault
  | wrongType (value : Document) (expected : String)
  | missing (property : String)
  | unexpected (properties : List Scalar)
  | emptyText
  deriving Repr

def Fault.message : Fault → String
  | wrongType value expected => value.literal ++ " is not of type '" ++ expected ++ "'"
  | missing property => Text.quoted property ++ " is a required property"
  | unexpected properties =>
    "Additional properties are not allowed (" ++
      Text.separated ", " (properties.map Scalar.literal) ++
        (if properties.length = 1 then " was" else " were") ++ " unexpected)"
  | emptyText => "'' should be non-empty"

def Fault.isWritable : Fault → Bool
  | wrongType value _ => value.isWritable
  | unexpected properties => properties.all Scalar.isWritable
  | missing _ | emptyText => true

/-- How deep the values are nested that the wording quotes. -/
def Fault.depth : Fault → Nat
  | wrongType value _ => value.depth
  | missing _ | unexpected _ | emptyText => 1

/-- A fault at a path. -/
structure Violation where
  path : List PathStep
  fault : Fault
  deriving Repr

def Violation.line (v : Violation) : String :=
  let pointer := Text.separated "/" (v.path.map PathStep.text)
  "- " ++ (if pointer = "" then "<root>" else pointer) ++ ": " ++ v.fault.message

def Violation.before (v w : Violation) : Bool :=
  comparePaths v.path w.path != .gt

/-- The fields of an object that a schema does not name, in the order of their texts. -/
def unexpectedKeys (properties : List (String × Schema)) (fields : List (Scalar × Document)) :
    List Scalar :=
  ((fields.map Prod.fst).filter fun key => !properties.any fun (name, _) => key = .text name).mergeSort
    fun a b => !decide (b.codes < a.codes)

/-- The violations of an object's own rules: fields that are missing, and fields that are not expected. -/
def keyFaults (properties : List (String × Schema)) (fields : List (Scalar × Document)) : List Fault :=
  let absent := (properties.map Prod.fst).filter fun name => (Document.field? (.text name) fields).isNone
  let others := unexpectedKeys properties fields
  absent.map .missing ++ if others.isEmpty then [] else [.unexpected others]

mutual

/-- The violations of a schema by a document that stands at a path. -/
def violationsAt (path : List PathStep) : Schema → Document → List Violation
  | text nonEmpty, d =>
    match d with
    | .text s => if nonEmpty && s = "" then [⟨path, .emptyText⟩] else []
    | .scalar (.unpaired codes) => if nonEmpty && codes.isEmpty then [⟨path, .emptyText⟩] else []
    | d => [⟨path, .wrongType d "string"⟩]
  | list items, d =>
    match d with
    | .list ds =>
      ((List.range ds.length).zip ds).flatMap fun (i, item) => violationsAt (path ++ [.item i]) items item
    | d => [⟨path, .wrongType d "array"⟩]
  | object properties, d =>
    match d with
    | .object fields => (keyFaults properties fields).map (⟨path, ·⟩) ++ fieldViolations path fields properties
    | d => [⟨path, .wrongType d "object"⟩]

/-- The violations of the schemas of an object's fields, in the order of the schemas. -/
def fieldViolations (path : List PathStep) (fields : List (Scalar × Document)) :
    List (String × Schema) → List Violation
  | [] => []
  | (name, schema) :: properties =>
    (match Document.field? name fields with
      | none => []
      | some d => violationsAt (path ++ [.key name]) schema d) ++ fieldViolations path fields properties

end

/-- The violations of a schema by a document, ordered by their paths. -/
def violations (schema : Schema) (d : Document) : List Violation :=
  (schema.violationsAt [] d).mergeSort Violation.before

def manifest : Schema :=
  object
    [ ( "definitions",
        list (object [("name", text true), ("version", text true), ("ranges", list (text true))]) ) ]

end Schema

end RuntimeRanges
