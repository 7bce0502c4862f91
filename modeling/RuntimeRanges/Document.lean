import RuntimeRanges.Scalar
import RuntimeRanges.Text.Cut

/-!
Documents: the values that settings, manifests and log events are made of. The fields of an object keep the
order in which their names first occurred.
-/

namespace RuntimeRanges

/-- A value of a settings file, a manifest or a log event. -/
inductive Document
  | scalar (s : Scalar)
  | list (items : List Document)
  | object (fields : List (Scalar × Document))
  deriving Repr

namespace Document

@[match_pattern]
abbrev null : Document := scalar .null

@[match_pattern]
abbrev bool (b : Bool) : Document := scalar (.bool b)

@[match_pattern]
abbrev int (n : Int) : Document := scalar (.int n)

@[match_pattern]
abbrev float (x : Decimal.Floating) : Document := scalar (.float x)

@[match_pattern]
abbrev text (s : String) : Document := scalar (.text s)

def field? (key : Scalar) : List (Scalar × Document) → Option Document
  | [] => none
  | (k, d) :: fields => if k.same key then some d else field? key fields

/-- Writes a field: a present key keeps its place and takes the new value, a new key goes to the end. -/
def setField (key : Scalar) (value : Document) : List (Scalar × Document) → List (Scalar × Document)
  | [] => [(key, value)]
  | (k, d) :: fields => if k.same key then (k, value) :: fields else (k, d) :: setField key value fields

def setFields (fields added : List (Scalar × Document)) : List (Scalar × Document) :=
  added.foldl (fun fs (k, d) => setField k d fs) fields

mutual

/-- The value as messages show it. -/
def literal : Document → String
  | scalar s => s.literal
  | list items => "[" ++ Text.separated ", " (literals items) ++ "]"
  | object fields => "\x7b" ++ Text.separated ", " (fieldLiterals fields) ++ "\x7d"

def literals : List Document → List String
  | [] => []
  | d :: items => literal d :: literals items

def fieldLiterals : List (Scalar × Document) → List String
  | [] => []
  | (k, d) :: fields => (k.literal ++ ": " ++ literal d) :: fieldLiterals fields

end

mutual

/-- Whether the value can be written in messages. -/
def isWritable : Document → Bool
  | scalar s => s.isWritable
  | list items => areWritable items
  | object fields => fieldsAreWritable fields

def areWritable : List Document → Bool
  | [] => true
  | d :: items => isWritable d && areWritable items

def fieldsAreWritable : List (Scalar × Document) → Bool
  | [] => true
  | (k, d) :: fields => k.isWritable && isWritable d && fieldsAreWritable fields

end

mutual

/-- How deep values are nested in one another. -/
def depth : Document → Nat
  | scalar _ => 1
  | list items => depthOfItems items + 1
  | object fields => depthOfFields fields + 1

/-- The depth of the deepest of the values of a list. -/
def depthOfItems : List Document → Nat
  | [] => 0
  | d :: items => max (depth d) (depthOfItems items)

/-- The depth of the deepest of the names and the values of an object. -/
def depthOfFields : List (Scalar × Document) → Nat
  | [] => 0
  | (_, d) :: fields => max 1 (max (depth d) (depthOfFields fields))

end

end Document

end RuntimeRanges
