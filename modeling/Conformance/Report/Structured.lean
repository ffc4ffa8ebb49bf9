import Conformance.Json.Basic
import Conformance.Report.Basic

/-!
# Reports as JSON

A report is an object of the violations, the notes on rule files and a summary. Its text is indented and holds ASCII
characters only.
-/

namespace Conformance

def Violation.toJson (v : Violation) : Json :=
  .object
    [("file", .text v.file), ("module", .text v.moduleName), ("type", .text v.category.name),
     ("message", .text v.message), ("line", (v.line.map Json.int).getD .null), ("severity", .text v.severity.name)]

namespace Report

def toJson (r : Report) : Json :=
  .object
    [("violations", .array (r.violations.map (·.toJson))),
     ("diagnostics", .object (r.notes.map fun e => (e.1, .array (e.2.map fun n => .text n.text)))),
     ("summary", .object
       [("rules_evaluated", .int r.rulesEvaluated), ("files_checked", .int r.filesChecked),
        ("errors", .int r.errors.length), ("warnings", .int r.warnings.length), ("passed", .bool r.passed),
        ("elapsed_ms", .float r.elapsed)])]

/-- The text of the report as JSON. -/
def structured (r : Report) : String := r.toJson.render ⟨true, true⟩

end Report

end Conformance
