import Conformance.Pattern.Scan
import Conformance.Report.Basic

/-!
# Reports for readers

Violations are listed by file, each with a sign for its severity, its category and its line. Where business logic was
found, advice follows on where to move it.

Consoles take tags in square brackets as markup. Text of the program is shown with its tags as they are, but not every
backslash of it: one that stands before a bracket without a tag is taken as an escape and dropped, and a single one at
the end is shown twice.
-/

namespace Conformance

open Pattern

namespace Report

/-! ## Text on a console -/

/-- A character that a tag may start with. -/
def startsTag (c : Char) : Bool :=
  ('a' ≤ c && c ≤ 'z') || c = '#' || c = '/' || c = '@'

/-- A tag, with the backslashes before it. -/
def tag : Pattern :=
  inOrder
    [greedily 0 (· == '\\'), char (· == '['), char startsTag, lazily 0 (· != '['), char (· == ']')]

/-- The text without the backslashes that stand directly before an opening bracket. -/
def dropEscapes : List Char → List Char
  | [] => []
  | [c] => [c]
  | c :: d :: cs => if c = '\\' ∧ d = '[' then '[' :: dropEscapes cs else c :: dropEscapes (d :: cs)

/-- The text with what the matches cover kept and escapes dropped in between; `offset` characters came before. -/
def showBetween (offset : Nat) (text : List Char) : List Match → List Char
  | [] => dropEscapes text
  | m :: ms =>
    dropEscapes (text.take (m.whole.start - offset)) ++ m.whole.text ++
      showBetween m.stop (text.drop (m.stop - offset)) ms

/-- How a text is shown on a console. -/
def shown (s : String) : String :=
  let cs := s.toList
  let text := showBetween 0 cs (tag.scan cs)
  String.ofList (if cs.getLast? = some '\\' ∧ cs.dropLast.getLast? ≠ some '\\' then text ++ ['\\'] else text)

/-! ## The report -/

/-- Where business logic may be moved to. -/
def advice : List String :=
  ["Custom hooks (src/hooks/) for reusable logic",
   "Services (src/services/) for API and data processing",
   "Utilities (src/utils/) for pure functions",
   "Store actions for state management logic"]

/-- The sign for the severity of a violation. -/
def sign (v : Violation) : String := if v.isError then "✗" else "⚠"

/-- The line of a violation. -/
def violationLine (v : Violation) : String :=
  let place := match v.line with
    | some n => ":" ++ toString n
    | none => ""
  "  " ++ sign v ++ " " ++ shown ("[" ++ v.category.name ++ "] " ++ v.message ++ place)

/-- The lines of a file and its violations. -/
def groupLines (group : String × List Violation) : List String :=
  (shown group.1 ++ ":") :: group.2.map violationLine ++ [""]

/-- The lines of the advice, which is given if business logic was found. -/
def adviceLines (r : Report) : List String :=
  if r.violations.any (·.category = .businessLogic) then
    ["💡 Refactoring Suggestions:", "Consider extracting business logic to:"] ++ advice.map ("  - " ++ ·) ++ [""]
  else []

/-- The lines below the heading. -/
def findingLines (r : Report) : List String :=
  if r.violations.isEmpty then
    ["✅ All constraints passed!", "Validated " ++ toString r.filesChecked ++ " files with 0 violations."]
  else
    ["❌ Found " ++ toString r.errors.length ++ " errors and " ++ toString r.warnings.length ++ " warnings:", ""] ++
      (byFile r.violations).flatMap groupLines ++ r.adviceLines

/-- The report as text, every line with its line feed. -/
def consoleText (r : Report) : String :=
  let heading :=
    "Rubric: " ++ toString r.rulesEvaluated ++ " constraint files, " ++ toString r.filesChecked ++ " files validated"
  String.join ((heading :: "" :: r.findingLines).map (· ++ "\n"))

end Report

end Conformance
