import Conformance.Proofs.Check.Arising
import Conformance.Proofs.Path.Display
import Conformance.Proofs.Project.Accounting
import Conformance.Proofs.Report.Verdict

/-!
# Verdicts on projects

What a rule finds is regular, concerns its target and stands in the lines of its text, or nowhere
(`Run.regular_of_mem_findings`). So a report on a project holds errors and warnings only, and its verdict is that of its
exit codes (`Project.check_regular`).
-/

namespace Conformance

namespace Run

variable {d : Disk} {r : Run} {rule : Rule} {v : Violation}

/-- What a rule finds: that there is no file, or what the checks find in the file. -/
theorem cases_of_mem_findings (h : v ∈ r.findings d rule) : v = r.missing (r.target rule) rule ∨
    ∃ bytes, d.file? (r.target rule) = .ok (some bytes) ∧
      Check.Arises (r.subject (r.target rule) rule bytes) v := by
  have hstep := alone_step (d := d) (r := r) rule
  rw [findings] at h
  generalize r.alone d rule = c at h hstep
  cases hstep with
  | inert | stopped => cases h
  | missing => exact .inl (List.mem_singleton.mp h)
  | checked _ htarget => exact .inr ⟨_, htarget, Check.arises_of_mem_ofFile h⟩

theorem regular_missing (target : Path) : (r.missing target rule).Regular :=
  Violation.regular_of_line_eq_none rfl List.mem_cons_self rfl

/-- **What a rule finds is regular and concerns its target.** -/
theorem regular_of_mem_findings (h : v ∈ r.findings d rule) :
    v.Regular ∧ v.file = Path.display r.root (r.target rule) := by
  rcases cases_of_mem_findings h with rfl | ⟨bytes, -, harises⟩
  · exact ⟨regular_missing _, rfl⟩
  · exact ⟨harises.regular, harises.file_eq⟩

/-- What a rule finds is listed under its location, tidied, wherever the root of the project is. -/
theorem file_of_mem_findings (h : v ∈ r.findings d rule) (hrelative : rule.location.toList.head? ≠ some '/') :
    v.file = Path.tidied rule.location :=
  (regular_of_mem_findings h).2.trans (Path.display_join_relative hrelative)

/-- **What a rule finds in a line stands in its target**, in one of the lines of the text. -/
theorem line_of_mem_findings (h : v ∈ r.findings d rule) {n : Int} (hline : v.line = some n) :
    ∃ bytes, d.file? (r.target rule) = .ok (some bytes) ∧ 1 ≤ n ∧
      n ≤ Text.countLines (Text.unifyLineEnds (Text.Utf8.decode bytes.data.toList)) := by
  rcases cases_of_mem_findings h with rfl | ⟨bytes, htarget, harises⟩
  · cases hline
  · exact ⟨bytes, htarget, harises.line_mem hline⟩

end Run

namespace Project

/-- **A report on a project holds regular violations**, each of the target of the rule that found it and, if it has a
line, in one of the lines of the target. So errors and warnings part the violations, the run passes iff its exit code
says so, and its strict exit code is that of success iff there is nothing to report. -/
theorem check_regular {d : Disk} {root : Path} {settings : Settings} {report : Report} {log : List LogRecord}
    (h : check d root settings = (.ok report, log)) :
    (∃ found, ruleFiles d root (searchOf settings) = .ok found ∧
      let rules := found.map fun f => (readRule root f).parsed.rule
      let r : Run := { root, settings }
      report.violations = rules.flatMap (r.findings d) ∧
      ∀ rule ∈ rules, ∀ v ∈ r.findings d rule,
        v.Regular ∧ v.file = Path.display root (r.target rule) ∧
        ∀ n, v.line = some n → ∃ bytes, d.file? (r.target rule) = .ok (some bytes) ∧ 1 ≤ n ∧
          n ≤ Text.countLines (Text.unifyLineEnds (Text.Utf8.decode bytes.data.toList))) ∧
    report.violations.partition (·.isError) = (report.errors, report.warnings) ∧
    (report.passed ↔ report.exitCode false = 0) ∧
    (report.exitCode true = 0 ↔ report.violations = []) ∧
    (report.porcelain = "" ↔ report.violations = []) := by
  obtain ⟨found, hfound, herror, hviolations, -⟩ := check_eq_ok h
  rw [Run.run_checkRules_of_none herror, List.map_map] at hviolations
  have hseverity : ∀ v ∈ report.violations, v.severity ∈ [Severity.error, .warning] := by
    intro v hv
    rw [hviolations] at hv
    obtain ⟨rule, -, hv⟩ := List.mem_flatMap.mp hv
    exact (Run.regular_of_mem_findings hv).1.severity_mem
  refine ⟨⟨found, hfound, hviolations, ?_⟩, Report.partition_violations hseverity, Report.passed_iff,
    Report.exitCode_strict_iff hseverity, Report.porcelain_eq_empty⟩
  intro rule _ v hv
  obtain ⟨hregular, hfile⟩ := Run.regular_of_mem_findings hv
  exact ⟨hregular, hfile, fun n hline => Run.line_of_mem_findings hv hline⟩

/-- What is read from the rule file of the project below. -/
def offlineBytes : ByteArray := ⟨"location: \"a.ts\" deny io.network.*".toUTF8.data⟩

/-- A project with a rule that denies calls of the network, and a target with a call in its second line. -/
def offlineProject : List (String × Tree) :=
  [("a.rux", .file offlineBytes), ("a.ts", .file ⟨"\nfetch(1)".toUTF8.data⟩)]

theorem check_regular_offlineProject :
    ∃ report log, check ⟨.folder offlineProject, []⟩ ⟨.root, []⟩ {} = (.ok report, log) ∧
      report.violations.map (fun v => (v.file, v.category, v.line)) = [("a.ts", .operation, some 2)] ∧
      report.violations.partition (·.isError) = (report.errors, report.warnings) ∧
      report.exitCode true ≠ 0 ∧ report.porcelain ≠ "" := by
  have hfind : RuleSearch.find (searchOf {}) offlineProject = [⟨["a.rux"], offlineBytes⟩] := by
    rw [RuleSearch.find, RuleSearch.inNameOrder, List.mergeSort_of_pairwise (by decide)]
    rfl
  have hfound := ruleFiles_eq_ok_iff.mpr
    ⟨offlineProject, (rfl : (⟨.folder offlineProject, []⟩ : Disk).get ⟨.root, []⟩ = _), hfind⟩
  obtain ⟨report, log, h⟩ := exists_report hfound (by decide +kernel)
  obtain ⟨⟨found, hfound', hviolations, -⟩, hpartition, -, hstrict, hporcelain⟩ := check_regular h
  obtain rfl := Except.ok.inj (hfound.symm.trans hfound')
  have hlines : report.violations.map (fun v => (v.file, v.category, v.line)) = [("a.ts", .operation, some 2)] := by
    rw [hviolations]
    decide +kernel
  have hne : report.violations ≠ [] := by
    intro hnil
    simp [hnil] at hlines
  exact ⟨report, log, h, hlines, hpartition, mt hstrict.mp hne, mt hporcelain.mp hne⟩

end Project

end Conformance
