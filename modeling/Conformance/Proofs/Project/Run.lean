import Conformance.Project.Run
import Mathlib.Data.List.TakeWhile

/-!
# Runs put together

What a rule adds to a run is what it adds to a run that has found nothing (`checkFile_eq`). So a run of rules is the
runs of its rules, one after the other, up to the first one that cannot be checked (`run_checkRules`,
`error_checkRules`). `alone_step` says all that one rule can do.
-/

namespace Conformance

namespace Disk

/-- Whether a file lies at a path. -/
def hasFile (d : Disk) (p : Path) : Bool :=
  match d.get p with
  | .ok (.file _) => true
  | _ => false

theorem hasFile_iff {d : Disk} {p : Path} : d.hasFile p ↔ ∃ bytes, d.file? p = .ok (some bytes) := by
  rw [hasFile, file?]
  cases d.get p with
  | error e => cases e <;> simp
  | ok t => cases t <;> simp

end Disk

namespace Run

/-- The run with the same root and settings that has found nothing. -/
def fresh (r : Run) : Run := { root := r.root, settings := r.settings }

/-- What one run has found, and then what another has. -/
def append (r s : Run) : Run :=
  { r with violations := r.violations ++ s.violations, checkedFiles := r.checkedFiles + s.checkedFiles }

@[simp] theorem append_fresh (r : Run) : r.append r.fresh = r := by
  simp [append, fresh]

@[simp] theorem add_nil (r : Run) : r.add [] = r := by
  simp [add]

@[simp] theorem add_add (r : Run) (vs ws : List Violation) : (r.add vs).add ws = r.add (vs ++ ws) := by
  simp [add]

section Rules

variable (d : Disk) (r : Run)

/-- The check of one rule on a run that has found nothing. -/
def alone (rule : Rule) : Checked := r.fresh.checkRules d [rule]

/-- The violations that a rule adds on its own. -/
def findings (rule : Rule) : List Violation := (r.alone d rule).run.violations

/-- Whether the rule has a target and it is a file. -/
def reaches (rule : Rule) : Bool := !rule.isInert && d.hasFile (r.target rule)

/-- What the check of one rule comes to: the rule has no target, its target cannot be looked up, is no file, or is
checked. -/
inductive Step (rule : Rule) : Checked → Prop
  | inert (h : rule.isInert) : Step rule ⟨r.fresh, [], none⟩
  | stopped {e : FileError} (h : ¬ rule.isInert) (htarget : d.file? (r.target rule) = .error e) :
      Step rule ⟨r.fresh, [announcement rule], some ⟨r.target rule, e⟩⟩
  | missing (h : ¬ rule.isInert) (htarget : d.file? (r.target rule) = .ok none) :
      Step rule ⟨r.fresh.add [r.missing (r.target rule) rule], [announcement rule], none⟩
  | checked {bytes : ByteArray} (h : ¬ rule.isInert) (htarget : d.file? (r.target rule) = .ok (some bytes)) :
      Step rule
        ⟨{ r.fresh.add (Check.ofFile.flatMap fun check => check (r.subject (r.target rule) rule bytes)) with
            checkedFiles := 1 },
          announcement rule :: Check.businessLogicLog (r.subject (r.target rule) rule bytes), none⟩

variable {d r}

/-! ## One rule -/

/-- **A check of a target adds to a run what it adds to a fresh one.** -/
theorem checkFile_eq (target : Path) (rule : Rule) : r.checkFile d target rule =
    (r.fresh.checkFile d target rule).map fun next => (r.append next.1, next.2) := by
  rw [checkFile, checkFile]
  cases d.file? target with
  | error e => rfl
  | ok bytes? =>
    cases bytes? with
    | none => rfl
    | some bytes => simp [Except.map, append, add, fresh, subject]

@[simp] theorem checkRules_nil : r.checkRules d [] = ⟨r, [], none⟩ := rfl

theorem checkRules_of_inert {rule : Rule} {rules : List Rule} (h : rule.isInert) :
    r.checkRules d (rule :: rules) = r.checkRules d rules :=
  if_pos h

theorem checkRules_of_not_inert {rule : Rule} {rules : List Rule} (h : ¬ rule.isInert) :
    r.checkRules d (rule :: rules) =
      match r.checkFile d (r.target rule) rule with
      | .error e => ⟨r, [announcement rule], some e⟩
      | .ok (next, log) =>
        let rest := next.checkRules d rules
        { rest with log := announcement rule :: log ++ rest.log } :=
  if_neg h

theorem alone_of_inert {rule : Rule} (h : rule.isInert) : r.alone d rule = ⟨r.fresh, [], none⟩ :=
  checkRules_of_inert h

theorem alone_of_not_inert {rule : Rule} (h : ¬ rule.isInert) : r.alone d rule =
    match r.fresh.checkFile d (r.target rule) rule with
    | .error e => ⟨r.fresh, [announcement rule], some e⟩
    | .ok (next, log) => ⟨next, announcement rule :: log, none⟩ := by
  rw [alone, checkRules_of_not_inert h, show r.fresh.target rule = r.target rule from rfl]
  cases r.fresh.checkFile d (r.target rule) rule with
  | error e => rfl
  | ok next => simp

theorem alone_step (rule : Rule) : Step d r rule (r.alone d rule) := by
  by_cases hinert : rule.isInert
  · rw [alone_of_inert hinert]
    exact .inert hinert
  · rw [alone_of_not_inert hinert, checkFile]
    cases htarget : d.file? (r.target rule) with
    | error e => exact .stopped hinert htarget
    | ok bytes? =>
      cases bytes? with
      | none => exact .missing hinert htarget
      | some bytes => exact .checked hinert htarget

theorem checkedFiles_alone (rule : Rule) : (r.alone d rule).run.checkedFiles = if r.reaches d rule then 1 else 0 := by
  have hstep := alone_step (d := d) (r := r) rule
  generalize r.alone d rule = c at hstep
  cases hstep with
  | inert h => simp [reaches, h, fresh]
  | stopped h htarget => simp [reaches, Disk.hasFile_iff, htarget, fresh]
  | missing h htarget => simp [reaches, Disk.hasFile_iff, htarget, fresh, add]
  | checked h htarget => simp [reaches, h, Disk.hasFile_iff, htarget]

@[simp] theorem alone_append (s : Run) (rule : Rule) : (r.append s).alone d rule = r.alone d rule := rfl

/-! ## Several rules -/

/-- The first rule is checked, and then the others, unless it stops the run. -/
theorem checkRules_cons (rule : Rule) (rules : List Rule) : r.checkRules d (rule :: rules) =
    match (r.alone d rule).error? with
    | some e => ⟨r, (r.alone d rule).log, some e⟩
    | none =>
      let rest := (r.append (r.alone d rule).run).checkRules d rules
      { rest with log := (r.alone d rule).log ++ rest.log } := by
  by_cases hinert : rule.isInert
  · simp [checkRules_of_inert hinert, alone_of_inert hinert]
  · rw [checkRules_of_not_inert hinert, alone_of_not_inert hinert, checkFile_eq]
    cases r.fresh.checkFile d (r.target rule) rule <;> rfl

/-- **The first rule that stops the run** decides how it ends. -/
theorem error_checkRules (rules : List Rule) :
    (r.checkRules d rules).error? = rules.findSome? fun rule => (r.alone d rule).error? := by
  induction rules generalizing r with
  | nil => rfl
  | cons rule rules ih =>
    rw [checkRules_cons, List.findSome?_cons]
    cases (r.alone d rule).error? with
    | some e => rfl
    | none => exact ih

theorem error_checkRules_eq_none_iff {rules : List Rule} :
    (r.checkRules d rules).error? = none ↔ ∀ rule ∈ rules, (r.alone d rule).error? = none := by
  rw [error_checkRules, List.findSome?_eq_none_iff]

/-- **A run is the runs of its rules** up to the first one that stops it. -/
theorem run_checkRules (rules : List Rule) : (r.checkRules d rules).run =
    (rules.takeWhile fun rule => (r.alone d rule).error?.isNone).foldl
      (fun q rule => q.append (r.alone d rule).run) r := by
  induction rules generalizing r with
  | nil => rfl
  | cons rule rules ih =>
    rw [checkRules_cons]
    cases herror : (r.alone d rule).error? with
    | some e => simp [herror]
    | none => simpa [herror] using ih (r := r.append (r.alone d rule).run)

theorem foldl_append_alone (rules : List Rule) (q : Run) :
    rules.foldl (fun q rule => q.append (r.alone d rule).run) q =
      { q with
        violations := q.violations ++ rules.flatMap (r.findings d)
        checkedFiles := q.checkedFiles + rules.countP (r.reaches d) } := by
  induction rules generalizing q with
  | nil => simp
  | cons rule rules ih =>
    rw [List.foldl_cons, ih]
    simp only [append, checkedFiles_alone, List.flatMap_cons, List.countP_cons, findings, List.append_assoc]
    congr 1
    split <;> omega

/-- **A run that nothing stops** adds what each rule adds alone, in the order of the rules. -/
theorem run_checkRules_of_none {rules : List Rule} (h : (r.checkRules d rules).error? = none) :
    (r.checkRules d rules).run =
      { r with
        violations := r.violations ++ rules.flatMap (r.findings d)
        checkedFiles := r.checkedFiles + rules.countP (r.reaches d) } := by
  have hall : ∀ rule ∈ rules, (r.alone d rule).error?.isNone = true := by
    simpa using error_checkRules_eq_none_iff.mp h
  rw [run_checkRules, List.takeWhile_eq_self_iff.mpr hall, foldl_append_alone]

end Rules

end Run

end Conformance
