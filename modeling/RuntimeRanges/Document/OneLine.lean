import RuntimeRanges.Document.Indented

/-!
Writing documents as JSON on one line.
-/

namespace RuntimeRanges.Document

mutual

/-- The JSON text of a document on one line. -/
def toJsonLine : Document → String
  | scalar s => jsonScalar s
  | list items => "[" ++ Text.separated ", " (itemLines items) ++ "]"
  | object fields => "\x7b" ++ Text.separated ", " (fieldLines fields) ++ "\x7d"

def itemLines : List Document → List String
  | [] => []
  | d :: items => toJsonLine d :: itemLines items

def fieldLines : List (Scalar × Document) → List String
  | [] => []
  | (k, d) :: fields => (jsonKey k ++ ": " ++ toJsonLine d) :: fieldLines fields

end

end RuntimeRanges.Document
