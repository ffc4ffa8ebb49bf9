import Conformance.Disk.Edit
import Conformance.Main
import Conformance.Proofs.Rule.Writing
import Conformance.Proofs.Rule.Tiling
import Conformance.Proofs.Rule.Wording
import Conformance.Proofs.Rule.Recovery
import Conformance.Proofs.Rule.RoundTrip
import Conformance.Proofs.Project.RuleSearch
import Conformance.Proofs.Project.Run
import Conformance.Proofs.Project.Threading
import Conformance.Proofs.Check.Tightening
import Conformance.Proofs.Path
import Conformance.Proofs.Project.Accounting
import Conformance.Proofs.Pattern.Reach
import Conformance.Proofs.Report.Record
import Conformance.Proofs.Wildcard.Search
import Conformance.Proofs.Check.Quotation
import Conformance.Proofs.Settings.Announced
import Conformance.Proofs.Settings.Cases
import Conformance.Proofs.Path.Spelling
import Conformance.Proofs.Project.Spelling
import Conformance.Proofs.Text.Utf8
import Conformance.Proofs.Text.LineEnds
import Conformance.Proofs.Rule.LineEnds
import Conformance.Proofs.Tree.Alike
import Conformance.Proofs.Project.LineEnds
import Conformance.Proofs.Rule.Lines
import Conformance.Proofs.Rule.Clean
import Conformance.Proofs.Pattern.Opening
import Conformance.Proofs.Text.Padding
import Conformance.Proofs.Pattern.Padding
import Conformance.Proofs.Check.Opening
import Conformance.Proofs.Check.Arising
import Conformance.Proofs.Check.Padding
import Conformance.Proofs.Project.Verdict
import Conformance.Proofs.Import.Literal
import Conformance.Proofs.Text.Word
import Conformance.Proofs.Pattern.Finding
import Conformance.Proofs.Import.Form
import Conformance.Proofs.Import.Reading
import Conformance.Proofs.Import.Listing
import Conformance.Proofs.Rule.Comments
import Conformance.Proofs.Rule.Scanner
import Conformance.Proofs.Rule.Spacing
import Conformance.Proofs.Pattern.Recognition
import Conformance.Proofs.Pattern.Phrase
import Conformance.Proofs.Check.Uses
import Conformance.Proofs.Logic.Unexcused
import Conformance.Proofs.Logic.Context
import Conformance.Proofs.Logic.LongFunction
import Conformance.Proofs.Logic.TryBlock
import Conformance.Proofs.Export.Line
import Conformance.Proofs.Export.Listing
import Conformance.Proofs.Settings.Entries
import Conformance.Proofs.Settings.Fallback
import Conformance.Proofs.Check.Hooks
import Conformance.Proofs.Export.Heading
import Conformance.Proofs.Export.Utility
import Conformance.Proofs.Settings.Emptied
import Conformance.Proofs.Report.Reading
import Conformance.Proofs.Text.Encoding
import Conformance.Proofs.Rule.Bytes
import Conformance.Proofs.Json.Reader
import Conformance.Proofs.Json.Reading
import Conformance.Proofs.Report.Structured
import Conformance.Proofs.Report.Groups
import Conformance.Proofs.Path.Display
import Conformance.Proofs.Text.LineNumbers
