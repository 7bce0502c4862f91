import RuntimeRanges.FileTree
import RuntimeRanges.Log.Session
import RuntimeRanges.Main
import RuntimeRanges.Proofs.Grouped
import RuntimeRanges.Proofs.Interval
import RuntimeRanges.Proofs.Numeral
import RuntimeRanges.Proofs.Outcome
import RuntimeRanges.Proofs.Overlap
import RuntimeRanges.Proofs.Range.Alternative
import RuntimeRanges.Proofs.Range.Comparator
import RuntimeRanges.Proofs.Range.Operand
import RuntimeRanges.Proofs.Range.Partial
import RuntimeRanges.Proofs.Range.Pointwise
import RuntimeRanges.Proofs.Release.Reading
import RuntimeRanges.Proofs.Resolution
import RuntimeRanges.Proofs.Text.Words
import RuntimeRanges.Proofs.Tie
import RuntimeRanges.Proofs.Version.Checks
import RuntimeRanges.Proofs.Version.Ends
import RuntimeRanges.Proofs.Version.Pattern
import RuntimeRanges.Proofs.Version.Preservation
import RuntimeRanges.Proofs.Version.RangeText
import RuntimeRanges.Proofs.Version.RoundTrip
import RuntimeRanges.Proofs.Version.Satisfaction
import RuntimeRanges.Proofs.Version.Start
import RuntimeRanges.Proofs.Version.Triples
import RuntimeRanges.Version.Edit
import RuntimeRanges.Proofs.Release.Plain
import RuntimeRanges.Proofs.Release.Text
import RuntimeRanges.Proofs.Range.Ends
import RuntimeRanges.Proofs.Range.Intersection
import RuntimeRanges.Proofs.Entry
import RuntimeRanges.Proofs.Merge
import RuntimeRanges.Proofs.Grouped.Memory
import RuntimeRanges.Proofs.Validation
import RuntimeRanges.Proofs.Independence
import RuntimeRanges.Proofs.Document.Schema
import RuntimeRanges.Proofs.Manifest
import RuntimeRanges.Proofs.Command
import RuntimeRanges.Proofs.Version.Record
import RuntimeRanges.Proofs.Version.Search
import RuntimeRanges.Proofs.Version.Editing
import RuntimeRanges.Proofs.Version.Reachable
import RuntimeRanges.Proofs.Command.Validation
import RuntimeRanges.Proofs.Command.Resolution
import RuntimeRanges.Proofs.Range.Single
import RuntimeRanges.Proofs.Range.Span
import RuntimeRanges.Proofs.Range.Leading
import RuntimeRanges.Proofs.Range.FullVersion
import RuntimeRanges.Proofs.Version.Maximum
import RuntimeRanges.Proofs.Settings
import RuntimeRanges.Proofs.Version.Target
import RuntimeRanges.Proofs.Document.Violations
import RuntimeRanges.Proofs.Document.Message
import RuntimeRanges.Proofs.Manifest.Listing
import RuntimeRanges.Proofs.Version.Canonical
import RuntimeRanges.Proofs.Log.Session
import RuntimeRanges.Proofs.Text.Pieces
import RuntimeRanges.Proofs.Release.Runs
import RuntimeRanges.Proofs.Range.Failure
import RuntimeRanges.Proofs.Interval.Meet
