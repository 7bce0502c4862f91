import RuntimeRanges.Validation

/-!
Reports of a validation: a document that lists the problems of each definition with the totals, and a
summary for readers.
-/

namespace RuntimeRanges

/-- The name of the kind of a fault, as reports show it. -/
def Version.Cause.kind : Version.Cause → String
  | .malformed _ => "MalformedVersionError"
  | .operator _ _ => "InvalidRangeOperatorError"
  | .number _ _ => "InvalidNumberError"
  | .nonsensical => "NonsensicalRangeError"

def Problem.toDocument : Problem → Document
  | unreadable f =>
    .object
      [ ("kind", .text "parse"), ("error", .text f.cause.kind), ("range", .scalar f.text),
        ("message", .scalar f.wording) ]
  | overlap o =>
    .object
      [ ("kind", .text "overlap"), ("identity", .scalar o.identity.label), ("first", .text o.first.text),
        ("second", .text o.second.text), ("message", .text o.message) ]

namespace Validation

/-- The definitions with problems, in the order in which the first problem of each was found. -/
def definitions (v : Validation) : List Document :=
  v.problems.map fun (identity, problems) =>
    .object [("identity", .scalar identity.label), ("problems", .list (problems.map Problem.toDocument))]

def report (v : Validation) : Document :=
  .object
    [ ("version", .text "1"), ("hasProblems", .bool (!v.isOk)), ("definitions", .list v.definitions),
      ( "totals",
        .object
          [ ("candidates", .int v.candidates.length), ("definitions", .int v.definitions.length),
            ("problems", .int v.problemCount) ] ) ]

/-- The lines of a summary: a block for each definition with problems, ended by an empty line. -/
def summaryLines : ProblemMap → List Scalar
  | [] => []
  | (identity, problems) :: rest =>
    let title := Scalar.joined ["Found some problems with ", identity.label, ":"]
    title :: problems.map (fun p => .joined ["  * ", p.wording]) ++ .text "" :: summaryLines rest

def summary (v : Validation) : Scalar :=
  if v.isOk then
    .text ("All versioned library definitions are named and structured correctly. (Found " ++
      toString v.candidates.length ++ ")\n")
  else .separated "\n" (summaryLines v.problems)

end Validation

end RuntimeRanges
