import Conformance.Project.Check
import Conformance.Project.Validation
import Conformance.Proofs.Project.Run
import Conformance.Proofs.Rule.RoundTrip
import Conformance.Proofs.Wildcard.Search

/-!
# What a check does to a run

Each check that changes a run adds to it what the check of the same name lists, and changes nothing else
(`Action.Adds`); the check of the component also logs (`Action.on_businessLogic`), and the check of the size breaks off
if the limit that is exceeded cannot be written (`Action.on_size`). So the check of a target comes to one of four ends
(`Action.on_checkFile`), of which three are those of `Run.checkFile`. Where the limits can be written, a run that is
changed step by step is the run of `Run.checkRules`, log and error included (`Action.on_checkRules_of_writable`).
-/

namespace Conformance

/-- The run with more violations and more log records. -/
def Progress.extend (p : Progress) (vs : List Violation) (records : List LogRecord := []) : Progress :=
  { run := p.run.add vs, log := p.log ++ records }

namespace Progress

variable (p : Progress)

@[simp] theorem extend_nil : p.extend [] = p := by
  simp [extend]

@[simp] theorem extend_extend (vs ws : List Violation) (records others : List LogRecord) :
    (p.extend vs records).extend ws others = p.extend (vs ++ ws) (records ++ others) := by
  simp [extend]

/-- What a check looks at is not changed by what was found. -/
@[simp] theorem subject_extend (f : LoadedFile) (vs : List Violation) (records : List LogRecord) :
    f.subject (p.extend vs records).run = f.subject p.run := rfl

end Progress

/-- The limit on lines that a file exceeds and that has too many digits to be written. -/
def Subject.unwritableLimit? (s : Subject) : Option Int :=
  s.rule.maxLines.filter fun most => most < Text.countLines s.text && !(Value.int most).isShowable

/-- The limit on lines has few enough digits to be written, if there is one. -/
def Rule.HasWritableLimit (rule : Rule) : Prop := ∀ most ∈ rule.maxLines, (Value.int most).isShowable

theorem Subject.unwritableLimit?_eq_none {s : Subject} (h : s.rule.HasWritableLimit) : s.unwritableLimit? = none := by
  rw [unwritableLimit?, Option.filter_eq_none_iff]
  intro most hmost
  simp [h most hmost]

namespace Action

/-! ## What single changes do -/

section On

variable {α β : Type} (p : Progress)

@[simp] theorem on_pure (x : α) : on (pure x) p = (.ok x, p) := rfl

@[simp] theorem on_get : on get p = (.ok p, p) := rfl

/-- What comes after an error is not done. -/
theorem on_bind (a : Action α) (next : α → Action β) : on (a >>= next) p =
    match on a p with
    | (.ok x, q) => on (next x) q
    | (.error s, q) => (.error s, q) := by
  simp only [on, ExceptT.run_bind, StateT.run_bind]
  rcases StateT.run (ExceptT.run a) p with ⟨_ | _, _⟩ <;> rfl

@[simp] theorem on_settings : on settings p = (.ok p.run.settings, p) := rfl

@[simp] theorem on_say (record : LogRecord) : on (say record) p = (.ok (), p.extend [] [record]) := by
  simp only [Progress.extend, Run.add_nil]
  rfl

@[simp] theorem on_count : on count p = (.ok (), { p with run := p.run.count }) := rfl

theorem on_written (n : Int) : on (written n) p =
    if (Value.int n).isShowable then (.ok (toString n), p) else (.error (.unwritable n), p) := by
  rw [written]
  split <;> rfl

end On

/-! ## Changes that add what a check lists -/

/-- On every run the change adds what the check lists for the file, and does nothing else. -/
def Adds (f : LoadedFile) (a : Action Unit) (check : Check) : Prop :=
  ∀ p : Progress, on a p = (.ok (), p.extend (check (f.subject p.run)))

section Adds

variable {α : Type} {f : LoadedFile} {a b : Action Unit} {c c' : Check}

/-- Only what a check lists for the file matters. -/
theorem Adds.congr (h : Adds f a c) (heq : ∀ r : Run, c (f.subject r) = c' (f.subject r)) : Adds f a c' := by
  intro p
  rw [h p, heq]

theorem adds_pure : Adds f (pure ()) fun _ => [] := by
  intro p
  simp

theorem adds_add {category : Category} {message : String} {line : Option Nat} {severity : Severity} :
    Adds f (add f.path f.rule category message line severity)
      fun s => [{ s.fault category message severity with line := line.map Int.ofNat }] := by
  intro p
  rw [Progress.extend, List.append_nil]
  rfl

/-- **One change after the other** adds what the one adds and then what the other does, which sees the same file. -/
theorem Adds.then (ha : Adds f a c) (hb : Adds f b c') : Adds f (a >>= fun _ => b) fun s => c s ++ c' s := by
  intro p
  simp only [on_bind, ha p, hb (p.extend _), Progress.extend_extend, Progress.subject_extend, List.append_nil]

theorem Adds.provided {condition : Prop} [Decidable condition] (h : Adds f a c) :
    Adds f (provided condition a) fun s => if condition then c s else [] := by
  rw [Action.provided]
  split
  · exact h
  · exact adds_pure

/-- A change that looks at the settings first. -/
theorem Adds.withSettings {next : Settings → Action Unit} {found : Settings → Check}
    (h : ∀ t, Adds f (next t) (found t)) : Adds f (settings >>= next) fun s => found s.settings s := by
  intro p
  rw [on_bind, on_settings]
  exact h _ p

/-- **A loop** adds what its rounds add, in their order. -/
theorem Adds.loop {each : α → Action Unit} {found : α → Check} (h : ∀ x, Adds f (each x) (found x)) (xs : List α) :
    Adds f (forM xs each) fun s => xs.flatMap fun x => found x s := by
  induction xs with
  | nil => exact adds_pure
  | cons x xs ih =>
    rw [List.forM_cons]
    exact (h x).then ih

/-- A loop that adds one violation in each round. -/
theorem Adds.loop_single {each : α → Action Unit} {found : α → Subject → Violation}
    (h : ∀ x, Adds f (each x) fun s => [found x s]) (xs : List α) :
    Adds f (forM xs each) fun s => xs.map fun x => found x s :=
  (Adds.loop h xs).congr fun _ => List.map_eq_flatMap.symm

/-- A loop that adds one violation in some of its rounds. -/
theorem Adds.loop_provided {each : α → Action Unit} {found : α → Subject → Violation}
    (h : ∀ x, Adds f (each x) fun s => [found x s]) (condition : α → Bool) (xs : List α) :
    Adds f (forM xs fun x => Action.provided (condition x) (each x))
      fun s => (xs.filter condition).map fun x => found x s := by
  refine (Adds.loop (fun x => (h x).provided) xs).congr fun r => ?_
  induction xs with
  | nil => rfl
  | cons x xs ih =>
    rw [List.flatMap_cons, ih]
    cases hx : condition x <;> simp [hx]

end Adds

/-! ## The checks of a file -/

section Checks

variable (f : LoadedFile)

theorem adds_imports : Adds f (imports f) Check.imports := by
  rw [imports, Wildcard.finds_eq]
  exact (Adds.loop (fun _ => (Adds.loop_provided (fun _ => adds_add) _ _).then adds_add.provided) _).congr fun _ => rfl

theorem adds_operations : Adds f (operations f) Check.operations := by
  refine Adds.congr (c := fun s => f.rule.deniedOperations.flatMap fun target =>
    (Operation.ofTarget? target).elim [] (Check.operationFaults s)) (Adds.loop (fun target => ?_) _) fun r => ?_
  · cases Operation.ofTarget? target with
    | none => exact adds_pure
    | some o =>
      refine (Adds.loop (fun pattern => Adds.loop_single (fun _ => adds_add) _) _).congr fun r => ?_
      exact List.map_flatMap.symm
  · refine congrArg (List.flatMap · f.rule.deniedOperations) (funext fun target => ?_)
    cases Operation.ofTarget? target <;> rfl

theorem adds_exports : Adds f (exports f) Check.exports := by
  rw [exports, Wildcard.finds_eq]
  exact (Adds.loop (fun _ => adds_add.provided.then (Adds.loop_provided (fun _ => adds_add) _ _)) _).congr fun _ => rfl

theorem adds_unusedExports : Adds f (unusedExports f) Check.unusedExports :=
  (Adds.withSettings fun _ => (Adds.loop_single (fun _ => adds_add) _).provided).congr fun _ => rfl

theorem adds_containerStructure : Adds f (containerStructure f) Check.containerStructure :=
  (adds_add.provided.then adds_add.provided).congr fun _ => rfl

theorem adds_hookComplexity : Adds f (hookComplexity f) Check.hookComplexity :=
  (Adds.withSettings fun _ => adds_add.provided.then (Adds.withSettings fun _ => adds_add.provided)).congr fun _ => rfl

theorem adds_logicFindings : Adds f (logicFindings f) Check.logicFindings :=
  (Adds.loop_single (fun _ => adds_add) _).congr fun _ => rfl

/-- The check of a component adds what it lists and logs why it is not searched for business logic. -/
theorem on_businessLogic (p : Progress) : on (businessLogic f) p =
    (.ok (), p.extend (Check.businessLogic (f.subject p.run)) (Check.businessLogicLog (f.subject p.run))) := by
  have hrule : (f.subject p.run).rule = f.rule := rfl
  rw [businessLogic, Check.businessLogic, Check.businessLogicLog, hrule]
  by_cases hcomponent : f.rule.isComponent
  · by_cases hexempt : (f.subject p.run).isExempt
    · simp [hcomponent, hexempt, on_bind]
    · have hcontainer : on (provided (f.rule.role = .container) (containerStructure f)) p = _ :=
        (adds_containerStructure f).provided p
      by_cases hscanned : (f.subject p.run).componentClass.scanned
      · have hsearch := (adds_logicFindings f).then (adds_hookComplexity f)
        simp [hcomponent, hexempt, hscanned, on_bind, hcontainer, hsearch (p.extend _)]
      · simp [hcomponent, hexempt, hscanned, on_bind, hcontainer]
  · simp [hcomponent]

/-- The check of the size breaks off if the limit that is exceeded cannot be written, and otherwise adds what it
lists. -/
theorem on_size (p : Progress) : on (size f) p =
    match (f.subject p.run).unwritableLimit? with
    | some most => (.error (.unwritable most), p)
    | none => (.ok (), p.extend (Check.size (f.subject p.run))) := by
  have hrule : (f.subject p.run).rule = f.rule := rfl
  have htext : (f.subject p.run).text = f.text := rfl
  rw [size, Subject.unwritableLimit?, Check.size, hrule, htext]
  cases f.rule.maxLines with
  | none => simp
  | some most =>
    by_cases hlong : most < Text.countLines f.text
    · by_cases hshown : (Value.int most).isShowable
      · simp [provided, hlong, hshown, on_bind, on_written, adds_add p, Option.filter_some, Subject.fault]
      · simp [provided, hlong, hshown, on_bind, on_written, Option.filter_some]
    · simp [provided, hlong, Option.filter_some]

end Checks

/-! ## Files and rules -/

section Rules

variable (d : Disk) (p : Progress)

/-- All checks of a file, one after the other. -/
theorem on_checks (f : LoadedFile) : on (forM checks fun check => check f) p =
    match (f.subject p.run).unwritableLimit? with
    | some most => (.error (.unwritable most), p)
    | none =>
      (.ok (), p.extend (Check.ofFile.flatMap fun check => check (f.subject p.run))
        (Check.businessLogicLog (f.subject p.run))) := by
  rw [checks, List.forM_cons, on_bind, on_size]
  cases (f.subject p.run).unwritableLimit? with
  | some most => rfl
  | none =>
    simp [on_bind, adds_imports f _, adds_operations f _, adds_exports f _, adds_unusedExports f _, on_businessLogic,
      Check.ofFile]

/-- **The check of a target comes to one of four ends.** The look-up fails, and the run is as it was; there is no file,
which is noted; the limit on lines cannot be written, and only the file is counted; or all checks are made. -/
theorem on_checkFile (target : Path) (rule : Rule) : on (checkFile d target rule) p =
    match d.file? target with
    | .error e => (.error (.access ⟨target, e⟩), p)
    | .ok none => (.ok (), p.extend [p.run.missing target rule])
    | .ok (some bytes) =>
      let s := p.run.subject target rule bytes
      let counted : Progress := { p with run := p.run.count }
      match s.unwritableLimit? with
      | some most => (.error (.unwritable most), counted)
      | none => (.ok (), counted.extend (Check.ofFile.flatMap fun check => check s) (Check.businessLogicLog s)) := by
  rw [checkFile]
  cases d.file? target with
  | error e => rfl
  | ok bytes? =>
    cases bytes? with
    | none => simp [Progress.extend, Run.missing]; rfl
    | some bytes =>
      simp only [on_bind, on_count, on_checks]
      rfl

variable {rule : Rule} {rules : List Rule}

theorem on_checkFile_of_writable (target : Path) (h : rule.HasWritableLimit) : on (checkFile d target rule) p =
    match p.run.checkFile d target rule with
    | .ok (next, log) => (.ok (), ⟨next, p.log ++ log⟩)
    | .error e => (.error (.access e), p) := by
  rw [on_checkFile, Run.checkFile]
  cases d.file? target with
  | error e => rfl
  | ok bytes? =>
    cases bytes? with
    | none => simp [Progress.extend]
    | some bytes =>
      have hlimit : (p.run.subject target rule bytes).unwritableLimit? = none := Subject.unwritableLimit?_eq_none h
      simp [hlimit, Progress.extend, Run.count, Run.add]

theorem checkRule_of_inert (h : rule.isInert) : checkRule d rule = pure () :=
  if_pos h

/-- The check of a rule is announced and then made. -/
theorem on_checkRule (h : ¬ rule.isInert) : on (checkRule d rule) p =
    on (checkFile d (p.run.target rule) rule) (p.extend [] [Run.announcement rule]) := by
  rw [checkRule, if_neg h, on_bind, on_say]
  simp only [on_bind, on_get]
  rfl

/-- **A run changed step by step is the run that lists its findings**, as long as the limits can be written. -/
theorem on_checkRules_of_writable (h : ∀ rule ∈ rules, rule.HasWritableLimit) : on (checkRules d rules) p =
    let checked := p.run.checkRules d rules
    ((checked.error?.map fun e => .error (.access e)).getD (.ok ()), ⟨checked.run, p.log ++ checked.log⟩) := by
  induction rules generalizing p with
  | nil => simp [checkRules]
  | cons rule rules ih =>
    obtain ⟨hrule, hrules⟩ := List.forall_mem_cons.mp h
    rw [checkRules, List.forM_cons, on_bind]
    by_cases hinert : rule.isInert
    · simp only [checkRule_of_inert d hinert, on_pure, Run.checkRules_of_inert hinert]
      exact ih p hrules
    · rw [on_checkRule d p hinert, on_checkFile_of_writable _ _ _ hrule, Run.checkRules_of_not_inert hinert]
      have hrun : (p.extend [] [Run.announcement rule]).run = p.run := Run.add_nil p.run
      rw [hrun]
      cases p.run.checkFile d (p.run.target rule) rule with
      | error e => simp [Progress.extend]
      | ok next => simp [Progress.extend, ← checkRules.eq_1, ih _ hrules]

end Rules

end Action

/-! ## Projects -/

theorem Value.isShowable_int_of_lt {n : Int} {digits : Nat} (hdigits : digits ≤ mostShownDigits)
    (h : n.natAbs < 10 ^ digits) : (Value.int n).isShowable := by
  have hpow : ∀ m, digits ≤ m → 10 ^ digits ≤ Nat.pow 10 m := fun m => Nat.pow_le_pow_right (by decide)
  rw [isShowable, decide_eq_true_eq]
  exact Nat.lt_of_lt_of_le h (hpow _ hdigits)

/-- **Rules that are read from files** have limits that can be written. -/
theorem hasWritableLimit_ofBytes (bytes : List UInt8) : (ParsedRule.ofBytes bytes).rule.HasWritableLimit := by
  have hrule : (ParsedRule.ofBytes bytes).rule = Rule.ofText (Text.Utf8.decode bytes) := by
    rw [ParsedRule.ofBytes, Rule.ofText]
    split <;> rfl
  intro most hmost
  rw [hrule] at hmost
  obtain ⟨hpos, hlt⟩ := (Rule.writable_ofText _).maxLines most hmost
  have hdigits : 18 ≤ Value.mostShownDigits := by decide
  refine Value.isShowable_int_of_lt hdigits ?_
  omega

/-- **A project is checked step by step.** The rules of its files change one run, which only a look-up can break off,
and the report holds what that run has found. -/
theorem Project.check_eq_stepwise {d : Disk} {root : Path} {settings : Settings} {found : List FoundFile}
    (h : ruleFiles d root (searchOf settings) = .ok found) :
    let files := found.map (readRule root)
    let announced := countRecord root settings.ruleSuffix found.length :: files.flatMap (·.warnings)
    let after := (Action.checkRules d (files.map (·.parsed.rule))).on ⟨{ root, settings }, announced⟩
    (∃ e, after.1 = .error (.access e) ∧ check d root settings = (.error e, after.2.log)) ∨
      (after.1 = .ok () ∧ check d root settings =
        (.ok
          { violations := after.2.run.violations
            rulesEvaluated := files.length
            filesChecked := after.2.run.checkedFiles
            notes := notesOf files }, after.2.log)) := by
  intro files announced after
  have hwritable : ∀ rule ∈ files.map (·.parsed.rule), rule.HasWritableLimit := by
    simp only [files, List.map_map, List.forall_mem_map]
    intro f _
    exact hasWritableLimit_ofBytes _
  have hafter := Action.on_checkRules_of_writable d ⟨{ root, settings }, announced⟩ hwritable
  rw [check, h]
  simp only [after, hafter]
  cases (Run.checkRules d { root, settings } (files.map (·.parsed.rule))).error? with
  | some e => exact .inl ⟨e, rfl, rfl⟩
  | none => exact .inr ⟨rfl, rfl⟩

end Conformance
