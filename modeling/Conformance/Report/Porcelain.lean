import Conformance.Report.Basic

/-!
# Reports for programs

One record for each violation, its fields separated by colons; the line is empty where there is none. Only the message,
which comes last, may hold further colons. Records are separated by line feeds.

A line number is written with all its digits. That one of more digits than integers may be shown with
(`Value.mostShownDigits`) cannot be written is left out: no text has so many lines.
-/

namespace Conformance

/-- The line as a field, which is empty if there is none. -/
def Violation.lineField (v : Violation) : String :=
  match v.line with
  | some n => toString n
  | none => ""

/-- The record of a violation. -/
def Violation.record (v : Violation) : String :=
  v.severity.name ++ ":" ++ v.category.name ++ ":" ++ v.file ++ ":" ++ v.lineField ++ ":" ++ v.message

/-- The records of all violations. -/
def Report.porcelain (r : Report) : String :=
  String.intercalate "\n" (r.violations.map (·.record))

end Conformance
