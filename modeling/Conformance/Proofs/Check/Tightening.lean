import Conformance.Proofs.Project.Run
import Mathlib.Data.List.Flatten

/-!
# Stricter rules

A rule is tightened by denying more and by allowing less. No check finds less under a stricter rule: what it found
before it finds again, in the same order, among other things (`Check.monotone_of_mem_ofFile`). This goes for denied
imports twice over, since they also decide which components are searched for business logic
(`isKeptFromState_of_tightens`).

`Run.checkFile_of_tightens` says it of the check of a target.
-/

namespace Conformance

/-- `strict` denies what `lax` denies, in the same order, and allows what `lax` allows at most; a rule that names no
allowed import allows all of them. -/
structure Rule.Tightens (strict lax : Rule) : Prop where
  moduleName : strict.moduleName = lax.moduleName
  location : strict.location = lax.location
  maxLines : strict.maxLines = lax.maxLines
  role : strict.role = lax.role
  deniedImports : lax.deniedImports.Sublist strict.deniedImports
  deniedOperations : lax.deniedOperations.Sublist strict.deniedOperations
  deniedExports : lax.deniedExports.Sublist strict.deniedExports
  allowedImports : lax.allowedImports = [] ∨
    strict.allowedImports ≠ [] ∧ ∀ p ∈ strict.allowedImports, p ∈ lax.allowedImports

/-- A check that finds no less under a stricter rule. -/
def Check.Monotone (check : Check) : Prop :=
  ∀ (s : Subject) (strict : Rule), strict.Tightens s.rule → (check s).Sublist (check { s with rule := strict })

section

variable {s : Subject} {strict : Rule} (h : strict.Tightens s.rule)

include h

/-! ## What a stricter rule leaves as it is -/

theorem Subject.fault_of_tightens (category : Category) (message : String) (severity : Severity) :
    Subject.fault { s with rule := strict } category message severity = s.fault category message severity := by
  simp only [fault, h.moduleName]

theorem Subject.faultAt_of_tightens (offset : Nat) (category : Category) (message : String) (severity : Severity) :
    Subject.faultAt { s with rule := strict } offset category message severity =
      s.faultAt offset category message severity := by
  simp only [faultAt, fault_of_tightens h]

theorem Rule.isComponent_of_tightens : strict.isComponent = s.rule.isComponent := by
  rw [isComponent, isComponent, h.location]

/-! ## Checks of lists -/

/-- An import that is not allowed is not allowed by a stricter rule. -/
theorem Check.importFaults_of_tightens (i : Import) :
    (importFaults s i).Sublist (importFaults { s with rule := strict } i) := by
  simp only [importFaults, Subject.faultAt_of_tightens h]
  refine ((h.deniedImports.filter _).map _).append ?_
  split
  · rename_i hfault
    simp only [Bool.and_eq_true, bne_iff_ne, ne_eq, Bool.not_eq_true', List.any_eq_false] at hfault
    obtain ⟨hne, hnone⟩ := hfault
    obtain ⟨hstrict, hallowed⟩ := h.allowedImports.resolve_left hne
    have hfault' : (strict.allowedImports != [] &&
        !strict.allowedImports.any (Wildcard.accepts · i.path)) = true := by
      simp only [Bool.and_eq_true, bne_iff_ne, ne_eq, Bool.not_eq_true', List.any_eq_false]
      exact ⟨hstrict, fun p hp => hnone p (hallowed p hp)⟩
    simp [hfault']
  · exact List.nil_sublist _

theorem Check.exportFaults_of_tightens (e : Export) :
    (exportFaults s e).Sublist (exportFaults { s with rule := strict } e) := by
  simp only [exportFaults, Subject.faultAt_of_tightens h]
  exact (List.Sublist.refl _).append ((h.deniedExports.filter _).map _)

/-! ## Components -/

/-- A rule that keeps a component from stores and services still does so when it denies more. -/
theorem Subject.isKeptFromState_of_tightens (hkept : s.isKeptFromState) :
    Subject.isKeptFromState { s with rule := strict } := by
  simp only [isKeptFromState, Bool.and_eq_true, List.any_eq_true] at hkept ⊢
  obtain ⟨htext, p, hp, hnames⟩ := hkept
  exact ⟨htext, p, h.deniedImports.subset hp, hnames⟩

/-- A component that is searched for business logic is searched under a stricter rule. -/
theorem Subject.scanned_of_tightens (hscanned : s.componentClass.scanned) :
    (Subject.componentClass { s with rule := strict }).scanned := by
  simp only [ComponentClass.scanned, componentClass, Bool.and_eq_true, Bool.or_eq_true, h.role, h.moduleName,
    h.location] at hscanned ⊢
  exact ⟨hscanned.1.imp_right (isKeptFromState_of_tightens h), hscanned.2⟩

theorem Check.containerStructure_of_tightens :
    containerStructure { s with rule := strict } = containerStructure s := by
  simp only [containerStructure, Subject.fault_of_tightens h]
  rfl

theorem Check.logicFindings_of_tightens : logicFindings { s with rule := strict } = logicFindings s := by
  simp only [logicFindings, Subject.fault_of_tightens h]

theorem Check.hookComplexity_of_tightens : hookComplexity { s with rule := strict } = hookComplexity s := by
  simp only [hookComplexity, Subject.fault_of_tightens h]

end

/-! ## All checks -/

namespace Check

theorem monotone_size : Monotone size := by
  intro s strict h
  simp only [size, Subject.fault_of_tightens h, h.maxLines]
  exact .refl _

theorem monotone_imports : Monotone imports := fun _ _ h =>
  List.Sublist.flatMap_right _ fun i _ => importFaults_of_tightens h i

theorem monotone_operations : Monotone operations := by
  intro s strict h
  have hfaults : operationFaults { s with rule := strict } = operationFaults s := by
    funext o
    simp only [operationFaults, Subject.faultAt_of_tightens h]
  simp only [operations, hfaults]
  exact h.deniedOperations.flatMap _

theorem monotone_exports : Monotone exports := fun _ _ h =>
  List.Sublist.flatMap_right _ fun e _ => exportFaults_of_tightens h e

theorem monotone_unusedExports : Monotone unusedExports := by
  intro s strict h
  simp only [unusedExports, Subject.fault_of_tightens h, h.location]
  exact .refl _

theorem monotone_businessLogic : Monotone businessLogic := by
  intro s strict h
  have hexempt : Subject.isExempt { s with rule := strict } = s.isExempt := rfl
  simp only [businessLogic, Rule.isComponent_of_tightens h, hexempt, h.role, containerStructure_of_tightens h,
    logicFindings_of_tightens h, hookComplexity_of_tightens h]
  split
  · exact .refl _
  · refine (List.Sublist.refl _).append ?_
    split
    · rename_i hscanned
      have hscanned' := Subject.scanned_of_tightens h hscanned
      simp only [if_pos hscanned', List.Sublist.refl]
    · exact List.nil_sublist _

/-- **No check of a file finds less under a stricter rule.** -/
theorem monotone_of_mem_ofFile : ∀ check ∈ ofFile, Monotone check := by
  simp only [ofFile, List.forall_mem_cons]
  exact ⟨monotone_size, monotone_imports, monotone_operations, monotone_exports, monotone_unusedExports,
    monotone_businessLogic, by simp⟩

end Check

/-- **A stricter rule hides no finding.** The check of a target fails for both rules alike, or both add violations to
the run, and those for the laxer rule are among those for the stricter one, in the same order. -/
theorem Run.checkFile_of_tightens {strict lax : Rule} (h : strict.Tightens lax) (d : Disk) (r : Run) (target : Path) :
    (∃ e, r.checkFile d target lax = .error e ∧ r.checkFile d target strict = .error e) ∨
    ∃ next log next' log' vs vs', r.checkFile d target lax = .ok (next, log) ∧
      r.checkFile d target strict = .ok (next', log') ∧ next.violations = r.violations ++ vs ∧
      next'.violations = r.violations ++ vs' ∧ vs.Sublist vs' := by
  rw [checkFile, checkFile]
  cases d.file? target with
  | error e => exact .inl ⟨_, rfl, rfl⟩
  | ok bytes? =>
    right
    cases bytes? with
    | none =>
      refine ⟨_, _, _, _, _, _, rfl, rfl, rfl, rfl, ?_⟩
      simp [missing, h.moduleName]
    | some bytes =>
      refine ⟨_, _, _, _, _, _, rfl, rfl, rfl, rfl, ?_⟩
      exact List.Sublist.flatMap_right _ fun check hcheck =>
        Check.monotone_of_mem_ofFile check hcheck (r.subject target lax bytes) strict h

/-- A component that fetches what it shows. -/
def fetchingComponent : Disk :=
  ⟨.folder [("components", .folder [("List.tsx", .file ⟨"import 'react'\nfetch('/api')\n".toUTF8.data⟩)])], []⟩

/-- A rule that allows its component much. -/
def laxRule : Rule :=
  { moduleName := "List", location := "src/../components/List.tsx", allowedImports := ["react", "lib/*"],
    deniedOperations := ["io.network.*"] }

/-- A stricter rule, under which the component is also searched for business logic. -/
def closedRule : Rule :=
  { laxRule with
    allowedImports := ["lib/*"], deniedImports := ["stores/*"], deniedExports := ["*"]
    deniedOperations := ["io.console.*", "io.network.*"] }

theorem Run.checkFile_closedRule : closedRule.Tightens laxRule ∧
    let r : Run := { root := ⟨.root, []⟩ }
    let target : Path := ⟨.root, ["components", "List.tsx"]⟩
    ∃ next log next' log' vs vs', r.checkFile fetchingComponent target laxRule = .ok (next, log) ∧
      r.checkFile fetchingComponent target closedRule = .ok (next', log') ∧ next.violations = r.violations ++ vs ∧
      next'.violations = r.violations ++ vs' ∧ vs.Sublist vs' := by
  have h : closedRule.Tightens laxRule :=
    { moduleName := rfl, location := rfl, maxLines := rfl, role := rfl
      deniedImports := by decide, deniedOperations := by decide, deniedExports := by decide
      allowedImports := .inr (by decide) }
  refine ⟨h, (checkFile_of_tightens h fetchingComponent _ _).resolve_left ?_⟩
  rintro ⟨e, he, -⟩
  cases he

end Conformance
