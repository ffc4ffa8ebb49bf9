import Conformance.Report.Porcelain
import Conformance.Proofs.Text.Lines
import Conformance.Proofs.Text.Numeral

/-!
# Records and lines

A record stands on one line iff none of its fields holds a line feed (`Violation.isOneLine_iff`); a line number never
does. A report has one line for each violation iff all its records stand on one line
(`Report.length_recordLines`), and then its lines are the records (`Report.recordLines_eq`).
-/

namespace Conformance

namespace Text

@[simp] theorem lineFeed_notMem_toDigits (n : Nat) : '\n' ∉ Nat.toDigits 10 n := notMem_toDigits (by decide) n

@[simp] theorem lineFeed_notMem_repr (n : Int) : '\n' ∉ n.repr.toList := notMem_repr (by decide) (by decide) n

end Text

namespace Violation

variable (v : Violation)

/-- Whether the record stands on one line. -/
def IsOneLine : Prop := '\n' ∉ v.record.toList

theorem record_ne_nil : v.record.toList ≠ [] := by
  simp [record]

theorem lineFeed_notMem_lineField : '\n' ∉ v.lineField.toList := by
  rw [lineField]
  cases v.line with
  | none => simp
  | some n => simp

/-- **A record is one line iff its fields are.** -/
theorem isOneLine_iff : v.IsOneLine ↔ '\n' ∉ v.severity.name.toList ∧ '\n' ∉ v.category.name.toList ∧
    '\n' ∉ v.file.toList ∧ '\n' ∉ v.message.toList := by
  simp [IsOneLine, record, lineFeed_notMem_lineField]

end Violation

namespace Report

variable (r : Report)

/-- The lines of the report for programs. -/
def recordLines : List (List Char) := Text.lines r.porcelain.toList

theorem toList_porcelain : r.porcelain.toList = ['\n'].intercalate (r.violations.map (·.record.toList)) := by
  rw [porcelain, String.toList_intercalate, List.map_map]
  rfl

theorem record_ne_nil : ∀ x ∈ r.violations.map (·.record.toList), x ≠ [] :=
  List.forall_mem_map.mpr fun v _ => v.record_ne_nil

variable {r}

/-- The lines are the records if every record is a line. -/
theorem recordLines_eq (h : ∀ v ∈ r.violations, v.IsOneLine) :
    r.recordLines = r.violations.map (·.record.toList) := by
  rw [recordLines, toList_porcelain]
  exact Text.lines_intercalate_of_notMem r.record_ne_nil (List.forall_mem_map.mpr h)

/-- **There are as many lines as violations iff every record is a line.** -/
theorem length_recordLines : r.recordLines.length = r.violations.length ↔ ∀ v ∈ r.violations, v.IsOneLine := by
  have h := Text.length_lines_intercalate r.record_ne_nil
  rwa [← toList_porcelain, List.length_map, List.forall_mem_map] at h

end Report

end Conformance
