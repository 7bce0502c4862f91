import RuntimeRanges.Document

/-!
What commands take from elsewhere: how deep values can be nested where they are read or quoted, and two libraries, one
that reads YAML and one that checks documents against schemas of one's own. What the libraries do is not laid down here;
their failures come in the kinds that commands tell apart.
-/

namespace RuntimeRanges

/-- What a JSON text is read for. -/
inductive Purpose
  | settings
  | schema
  | manifest
  deriving DecidableEq, Repr

namespace Library

/-- The kinds of failures: a file that is missing, a text that is not JSON or not YAML, a value that is out of place,
and all others. -/
inductive Kind
  | missing
  | json
  | yaml
  | value
  | other
  deriving DecidableEq, Repr

structure Failure where
  kind : Kind
  name : String
  message : String
  deriving DecidableEq, Repr

/-- What is wrong with the part of a document to which a path leads. -/
structure Finding where
  path : List Scalar
  message : Scalar
  deriving DecidableEq, Repr

end Library

structure Host where
  /-- How deep lists and objects can be nested in a JSON text. -/
  room : Purpose → Nat
  /-- How deep a value can be nested that a message quotes. -/
  quoteRoom : Nat
  /-- A value that no document holds counts as a failure. -/
  readYaml : List Char → Except Library.Failure Document
  /-- What a schema, which comes first, finds wrong with a document, in the order of the paths. -/
  checkSchema : Document → Document → Except Library.Failure (List Library.Finding)

end RuntimeRanges
