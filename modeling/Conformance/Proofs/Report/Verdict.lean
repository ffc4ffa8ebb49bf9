import Conformance.Proofs.Report.Record

/-!
# Verdicts

A report on violations that are errors or warnings parts them into the two (`Report.partition_violations`), and a run
that is not strict passes iff there are no errors (`Report.passed_iff`). A strict run passes iff there are no violations
at all (`Report.exitCode_strict_iff`), for which the report for programs has to be empty (`Report.porcelain_eq_empty`).
-/

namespace Conformance.Report

variable {r : Report}

/-- A run passes iff its exit code is that of success, unless it is strict. -/
theorem passed_iff : r.passed ↔ r.exitCode false = 0 := by
  rw [passed, exitCode]
  cases r.errors.isEmpty <;> simp

/-- The report for programs is empty iff there is nothing to report: no record is empty. -/
theorem porcelain_eq_empty : r.porcelain = "" ↔ r.violations = [] := by
  rw [← String.toList_inj, toList_porcelain]
  cases hviolations : r.violations with
  | nil => simp
  | cons v vs =>
    have hrecord := v.record_ne_nil
    cases vs <;> simp [hrecord]

section

variable (h : ∀ v ∈ r.violations, v.severity ∈ [Severity.error, .warning])
include h

/-- A violation is a warning iff it is not an error. -/
theorem isWarning_eq : ∀ v ∈ r.violations, v.isWarning = !v.isError := by
  intro v hv
  have hcases : ∀ s ∈ [Severity.error, .warning], decide (s = .warning) = !decide (s = .error) := by decide
  exact hcases _ (h v hv)

/-- **Errors and warnings part the violations.** -/
theorem partition_violations : r.violations.partition (·.isError) = (r.errors, r.warnings) := by
  rw [List.partition_eq_filter_filter, errors, warnings, List.filter_congr (isWarning_eq h)]
  rfl

/-- A strict run passes iff nothing was found. -/
theorem exitCode_strict_iff : r.exitCode true = 0 ↔ r.violations = [] := by
  have hempty : r.errors = [] ∧ r.warnings = [] ↔ r.violations = [] := by
    rw [errors, warnings, List.filter_eq_nil_iff, List.filter_eq_nil_iff, List.eq_nil_iff_forall_not_mem]
    constructor
    · rintro ⟨herrors, hwarnings⟩ v hv
      have hwarning := hwarnings v hv
      rw [isWarning_eq h v hv] at hwarning
      simp [herrors v hv] at hwarning
    · intro hnone
      exact ⟨fun v hv => absurd hv (hnone v), fun v hv => absurd hv (hnone v)⟩
  rw [← hempty, exitCode]
  cases r.errors <;> cases r.warnings <;> simp

end

end Conformance.Report
