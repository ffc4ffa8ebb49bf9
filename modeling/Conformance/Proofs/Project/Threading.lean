import Conformance.Proofs.Path
import Conformance.Proofs.Project.Validation

/-!
# Runs step by step

A run changes one state through all its checks, and what one rule does to it is the same whatever was found before: the
check of a rule on any run is its check on a run that has found nothing, put behind that run (`Action.on_checkRule_eq`).
So a run of rules adds what its rules add alone, up to the first rule that breaks it off, and such a rule leaves the run
as it was, but for a file that was counted before its limit on lines could not be written
(`Action.checkRules_isolated`).
-/

namespace Conformance

/-- What a run is after it was broken off at a target, if it was `r` before. The file is counted by the time its limit
on lines cannot be written. -/
def Stop.leaves (r : Run) : Stop → Run
  | access _ => r
  | unwritable _ => r.count

/-- Why the check of a target is broken off: the target cannot be looked up, or it is a file with more lines than a
limit that has too many digits to be written. -/
inductive Stop.Arises (d : Disk) (target : Path) (rule : Rule) : Stop → Prop
  | access {cause : FileError} (h : d.file? target = .error cause) : Arises d target rule (.access ⟨target, cause⟩)
  | unwritable {n : Int} {bytes : ByteArray} (hfile : d.file? target = .ok (some bytes))
      (hlimit : rule.maxLines = some n)
      (hlines : n < Text.countLines (Text.unifyLineEnds (Text.Utf8.decode bytes.data.toList)))
      (hdigits : Nat.pow 10 Value.mostShownDigits ≤ n.natAbs) : Arises d target rule (.unwritable n)

theorem Value.not_isShowable_int {n : Int} :
    (Value.int n).isShowable = false ↔ Nat.pow 10 Value.mostShownDigits ≤ n.natAbs := by
  rw [isShowable, decide_eq_false_iff_not, Nat.not_lt]

theorem Subject.unwritableLimit?_eq_some_iff {s : Subject} {n : Int} : s.unwritableLimit? = some n ↔
    s.rule.maxLines = some n ∧ n < Text.countLines s.text ∧ Nat.pow 10 Value.mostShownDigits ≤ n.natAbs := by
  rw [unwritableLimit?, Option.filter_eq_some_iff, Bool.and_eq_true, Bool.not_eq_true', decide_eq_true_eq,
    Value.not_isShowable_int]

namespace Progress

/-- The progress of a run with the same root and settings that has found and logged nothing. -/
def fresh (p : Progress) : Progress := { run := p.run.fresh }

/-- What was found and logged in one run, and then in another. -/
def append (p q : Progress) : Progress := { run := p.run.append q.run, log := p.log ++ q.log }

variable (p : Progress)

@[simp] theorem append_fresh : p.append p.fresh = p := by
  simp [append, fresh]

theorem violations_append (q : Progress) :
    (p.append q).run.violations = p.run.violations ++ q.run.violations := rfl

theorem append_extend (q : Progress) (vs : List Violation) (records : List LogRecord) :
    p.append (q.extend vs records) = (p.append q).extend vs records := by
  simp [append, extend, Run.append, Run.add]

end Progress

theorem Run.append_leaves (r : Run) (s : Stop) : r.append (s.leaves r.fresh) = s.leaves r := by
  cases s with
  | access => exact r.append_fresh
  | unwritable => simp [Stop.leaves, Run.append, Run.count, Run.fresh]

namespace Action

section Rules

variable (d : Disk) (p : Progress)

/-- What the check of one rule does to a run that has found nothing. -/
def alone (rule : Rule) : Except Stop Unit × Progress := on (checkRules d [rule]) p.fresh

/-- The violations that a rule adds on its own. -/
def findings (rule : Rule) : List Violation := (alone d p rule).2.run.violations

/-- What the check of a target comes to: it is broken off, it notes that there is no file, or all checks of the file are
made. -/
inductive Ends (target : Path) (rule : Rule) : Except Stop Unit × Progress → Prop
  | brokenOff {s : Stop} (h : s.Arises d target rule) : Ends target rule (.error s, { p with run := s.leaves p.run })
  | missing (h : d.file? target = .ok none) : Ends target rule (.ok (), p.extend [p.run.missing target rule])
  | checked {bytes : ByteArray} (h : d.file? target = .ok (some bytes)) :
      Ends target rule
        (.ok (), Progress.extend { p with run := p.run.count }
          (Check.ofFile.flatMap fun check => check (p.run.subject target rule bytes))
          (Check.businessLogicLog (p.run.subject target rule bytes)))

variable {d p}

/-! ## One target -/

/-- **What was found before has no part in the check of a target**: put in front of a run, it stays in front. -/
theorem on_checkFile_append {q : Progress} (hroot : q.run.root = p.run.root)
    (hsettings : q.run.settings = p.run.settings) (target : Path) (rule : Rule) :
    on (checkFile d target rule) (p.append q) =
      ((on (checkFile d target rule) q).1, p.append (on (checkFile d target rule) q).2) := by
  rw [on_checkFile, on_checkFile]
  have hmissing : (p.append q).run.missing target rule = q.run.missing target rule := by
    simp [Run.missing, Progress.append, Run.append, hroot]
  have hsubject : (p.append q).run.subject target rule = q.run.subject target rule := by
    funext bytes
    simp [Run.subject, Progress.append, Run.append, hroot, hsettings]
  have hcount : { p.append q with run := (p.append q).run.count } = p.append { q with run := q.run.count } := by
    simp [Progress.append, Run.append, Run.count, Nat.add_assoc]
  rw [hmissing, hsubject, hcount]
  cases d.file? target with
  | error e => rfl
  | ok bytes? =>
    cases bytes? with
    | none => simp only [Progress.append_extend]
    | some bytes =>
      simp only
      cases (q.run.subject target rule bytes).unwritableLimit? with
      | some most => rfl
      | none => simp only [Progress.append_extend]

/-- What breaks the check of a target off leaves the run accordingly. -/
theorem on_checkFile_of_arises {target : Path} {rule : Rule} {s : Stop} (h : s.Arises d target rule) :
    on (checkFile d target rule) p = (.error s, { p with run := s.leaves p.run }) := by
  rw [on_checkFile]
  cases h with
  | access hfile =>
    rw [hfile]
    rfl
  | @unwritable n bytes hfile hlimit hlines hdigits =>
    have hunwritable : (p.run.subject target rule bytes).unwritableLimit? = some n :=
      Subject.unwritableLimit?_eq_some_iff.mpr ⟨hlimit, hlines, hdigits⟩
    rw [hfile]
    simp only [hunwritable]
    rfl

/-- **The check of a target comes to one of these ends.** -/
theorem ends_checkFile (target : Path) (rule : Rule) : Ends d p target rule (on (checkFile d target rule) p) := by
  rw [on_checkFile]
  cases hfile : d.file? target with
  | error cause => exact .brokenOff (.access hfile)
  | ok bytes? =>
    cases bytes? with
    | none => exact .missing hfile
    | some bytes =>
      simp only
      cases hlimit : (p.run.subject target rule bytes).unwritableLimit? with
      | none => exact .checked hfile
      | some most =>
        obtain ⟨hmost, hlines, hdigits⟩ := Subject.unwritableLimit?_eq_some_iff.mp hlimit
        exact .brokenOff (.unwritable hfile hmost hlines hdigits)

/-- **The check of a target is broken off** iff there is a cause for it. -/
theorem error_checkFile_iff {target : Path} {rule : Rule} {s : Stop} :
    (on (checkFile d target rule) p).1 = .error s ↔ s.Arises d target rule := by
  constructor
  · intro h
    have hends := ends_checkFile (d := d) (p := p) target rule
    generalize on (checkFile d target rule) p = result at h hends
    cases hends with
    | brokenOff harises =>
      cases h
      exact harises
    | missing => cases h
    | checked => cases h
  · intro h
    rw [on_checkFile_of_arises h]

/-- A target whose check is broken off leaves the run accordingly. -/
theorem progress_of_error_checkFile {target : Path} {rule : Rule} {s : Stop}
    (h : (on (checkFile d target rule) p).1 = .error s) :
    (on (checkFile d target rule) p).2 = { p with run := s.leaves p.run } := by
  rw [on_checkFile_of_arises (error_checkFile_iff.mp h)]

/-! ## One rule -/

theorem alone_eq (rule : Rule) : alone d p rule = on (checkRule d rule) p.fresh := by
  rw [alone, checkRules, List.forM_cons, on_bind]
  rcases on (checkRule d rule) p.fresh with ⟨_ | _, _⟩ <;> rfl

/-- **A rule does to every run what it does to a fresh one.** -/
theorem on_checkRule_eq (rule : Rule) :
    on (checkRule d rule) p = ((alone d p rule).1, p.append (alone d p rule).2) := by
  rw [alone_eq]
  by_cases hinert : rule.isInert
  · simp [checkRule_of_inert d hinert]
  · have hannounced : p.extend [] [Run.announcement rule] = p.append (p.fresh.extend [] [Run.announcement rule]) := by
      rw [Progress.append_extend, Progress.append_fresh]
    rw [on_checkRule d _ hinert, on_checkRule d _ hinert, hannounced]
    exact on_checkFile_append (p := p) (q := p.fresh.extend [] [Run.announcement rule]) rfl rfl _ _

theorem alone_of_inert {rule : Rule} (h : rule.isInert) : alone d p rule = (.ok (), p.fresh) := by
  rw [alone_eq, checkRule_of_inert d h, on_pure]

theorem alone_of_not_inert {rule : Rule} (h : ¬ rule.isInert) : alone d p rule =
    on (checkFile d (p.run.target rule) rule) (p.fresh.extend [] [Run.announcement rule]) := by
  rw [alone_eq, on_checkRule d _ h]
  rfl

/-- A rule whose target cannot be checked leaves the run accordingly. -/
theorem run_alone_of_error {rule : Rule} {s : Stop} (h : (alone d p rule).1 = .error s) :
    (alone d p rule).2.run = s.leaves p.run.fresh := by
  by_cases hinert : rule.isInert
  · rw [alone_of_inert hinert] at h
    cases h
  · rw [alone_of_not_inert hinert] at h ⊢
    have hrun : (p.fresh.extend [] [Run.announcement rule]).run = p.run.fresh := Run.add_nil _
    rw [progress_of_error_checkFile h, hrun]

theorem checkedFiles_alone {rule : Rule} (h : (alone d p rule).1 = .ok ()) :
    (alone d p rule).2.run.checkedFiles = if p.run.reaches d rule then 1 else 0 := by
  by_cases hinert : rule.isInert
  · simp [alone_of_inert hinert, Run.reaches, hinert, Progress.fresh, Run.fresh]
  · rw [alone_of_not_inert hinert] at h ⊢
    have hends := ends_checkFile (d := d) (p := p.fresh.extend [] [Run.announcement rule]) (p.run.target rule) rule
    generalize on (checkFile d (p.run.target rule) rule) (p.fresh.extend [] [Run.announcement rule]) = result
      at h hends
    cases hends with
    | brokenOff => cases h
    | missing hfile =>
      simp [Run.reaches, Disk.hasFile_iff, hfile, Progress.extend, Progress.fresh, Run.fresh, Run.add]
    | checked hfile =>
      simp [Run.reaches, hinert, Disk.hasFile_iff, hfile, Progress.extend, Progress.fresh, Run.fresh, Run.add,
        Run.count]

/-! ## Several rules -/

theorem alone_append (q : Progress) (rule : Rule) : alone d (p.append q) rule = alone d p rule := rfl

theorem findings_append (q : Progress) : findings d (p.append q) = findings d p := rfl

/-- The first rule is checked, and then the others, unless it breaks the run off. -/
theorem on_checkRules_cons (rule : Rule) (rules : List Rule) : on (checkRules d (rule :: rules)) p =
    match (alone d p rule).1 with
    | .error s => (.error s, p.append (alone d p rule).2)
    | .ok _ => on (checkRules d rules) (p.append (alone d p rule).2) := by
  rw [checkRules, List.forM_cons, on_bind, on_checkRule_eq]
  cases (alone d p rule).1 <;> rfl

theorem result_checkRules_eq_ok_iff {rules : List Rule} :
    (on (checkRules d rules) p).1 = .ok () ↔ ∀ rule ∈ rules, (alone d p rule).1 = .ok () := by
  induction rules generalizing p with
  | nil => simp [checkRules]
  | cons rule rules ih =>
    rw [on_checkRules_cons, List.forall_mem_cons]
    cases (alone d p rule).1 with
    | error s => simp
    | ok _ =>
      simp only [true_and]
      exact ih

/-- **A run that nothing breaks off** adds what each rule adds alone, in the order of the rules. -/
theorem run_checkRules_of_ok {rules : List Rule} (h : (on (checkRules d rules) p).1 = .ok ()) :
    (on (checkRules d rules) p).2.run =
      { p.run with
        violations := p.run.violations ++ rules.flatMap (findings d p)
        checkedFiles := p.run.checkedFiles + rules.countP (p.run.reaches d) } := by
  induction rules generalizing p with
  | nil => simp [checkRules]
  | cons rule rules ih =>
    have hrule := result_checkRules_eq_ok_iff.mp h rule List.mem_cons_self
    have hcount := checkedFiles_alone hrule
    have hreaches : (p.append (alone d p rule).2).run.reaches d = p.run.reaches d := rfl
    rw [on_checkRules_cons, hrule] at h ⊢
    rw [ih h, findings_append, hreaches]
    simp only [Progress.append, Run.append, hcount, List.flatMap_cons, List.countP_cons, findings, List.append_assoc]
    congr 1
    split <;> omega

/-- **A run that a rule breaks off** is as it was after the rules before that one, but for what the rule leaves. -/
theorem exists_of_error_checkRules {rules : List Rule} {s : Stop} (h : (on (checkRules d rules) p).1 = .error s) :
    ∃ before rule after, rules = before ++ rule :: after ∧ (on (checkRules d before) p).1 = .ok () ∧
      (alone d p rule).1 = .error s ∧
      (on (checkRules d rules) p).2.run = s.leaves (on (checkRules d before) p).2.run := by
  induction rules generalizing p with
  | nil => cases h
  | cons rule rules ih =>
    rw [on_checkRules_cons] at h ⊢
    cases hrule : (alone d p rule).1 with
    | error t =>
      rw [hrule] at h
      cases h
      refine ⟨[], rule, rules, rfl, rfl, hrule, ?_⟩
      show p.run.append (alone d p rule).2.run = s.leaves p.run
      rw [run_alone_of_error hrule, Run.append_leaves]
    | ok _ =>
      rw [hrule] at h
      obtain ⟨before, other, after, rfl, hbefore, hother, hrun⟩ := ih h
      refine ⟨rule :: before, other, after, rfl, ?_, hother, ?_⟩
      · rw [on_checkRules_cons, hrule]
        exact hbefore
      · rw [on_checkRules_cons, hrule]
        exact hrun

/-- **A run only grows**, whatever ends it. -/
theorem checkRules_grows (rules : List Rule) :
    p.run.violations <+: (on (checkRules d rules) p).2.run.violations ∧
      (on (checkRules d rules) p).2.run.root = p.run.root ∧
      (on (checkRules d rules) p).2.run.settings = p.run.settings := by
  cases h : (on (checkRules d rules) p).1 with
  | ok =>
    rw [run_checkRules_of_ok h]
    exact ⟨List.prefix_append _ _, rfl, rfl⟩
  | error s =>
    obtain ⟨before, rule, after, -, hbefore, -, hrun⟩ := exists_of_error_checkRules h
    rw [hrun, run_checkRules_of_ok hbefore]
    cases s <;> exact ⟨List.prefix_append _ _, rfl, rfl⟩

end Rules

end Action

/-! ## Runs that are broken off -/

/-- **A file with too long a name** cannot be looked up. -/
theorem Disk.file?_of_longName {entries : List (String × Tree)} {name : String} (hnull : '\x00' ∉ name.toList)
    (hlong : Tree.longestName < name.utf8ByteSize) :
    (Disk.mk (.folder entries) []).file? ⟨.root, [name]⟩ = .error .nameTooLong := by
  have hup : name ≠ ".." := by
    rintro rfl
    exact absurd hlong (by decide)
  have htext : Path.toString ⟨.root, [name]⟩ = "/" ++ name := by
    simp [Path.toString, Path.Anchor.text]
  have hget : (Disk.mk (.folder entries) []).get ⟨.root, [name]⟩ = .error .nameTooLong := by
    rw [get, follow, htext]
    simp [hnull, absolute, Tree.Place.follow, Tree.Place.enter, hup, hlong, Except.map]
  rw [file?, hget]

namespace Action

/-- A disk with one file. -/
def oneFile : Disk := ⟨.folder [("a.ts", .file ⟨#[]⟩)], []⟩

/-- A run that has counted files, but found nothing. -/
def quietRun : Progress := { run := { root := ⟨.root, []⟩, checkedFiles := 7 } }

/-- A rule that no file can keep, since it allows less than no lines. -/
def strictRule : Rule := { moduleName := "A", location := "a.ts", maxLines := some (-1) }

/-- A rule for a file that is not there. -/
def lostRule : Rule := { moduleName := "B", location := "b.ts" }

/-- A rule whose target has too long a name. -/
def unusableRule : Rule := { moduleName := "C", location := String.ofList (List.replicate 256 'x') }

/-- A limit of one digit more than can be written. -/
def longLimit : Int := -(Nat.pow 10 Value.mostShownDigits : Nat)

/-- A rule with such a limit. -/
def longRule : Rule := { moduleName := "D", location := "a.ts", maxLines := some longLimit }

theorem file?_unusableRule : oneFile.file? (quietRun.run.target unusableRule) = .error .nameTooLong := by
  rw [Run.target, unusableRule, Path.ofString_name (by decide) (by decide) (by decide)]
  exact Disk.file?_of_longName (by rw [String.toList_ofList]; decide) (by decide +kernel)

theorem alone_unusableRule : (alone oneFile quietRun unusableRule).1 =
    .error (.access ⟨quietRun.run.target unusableRule, .nameTooLong⟩) := by
  have htarget : quietRun.fresh.run.target unusableRule = quietRun.run.target unusableRule := rfl
  rw [alone_eq, on_checkRule _ _ (by decide +kernel), htarget, on_checkFile, file?_unusableRule]

/-- Behind a rule that breaks the run off, the missing file of another is not noted. -/
theorem violations_unusable_first :
    ((checkRules oneFile [unusableRule, lostRule]).on quietRun).2.run.violations = [] := by
  rw [on_checkRules_cons, alone_unusableRule, Progress.violations_append, run_alone_of_error alone_unusableRule]
  rfl

/-- In front of it, the missing file is noted. -/
theorem violations_unusable_last :
    ((checkRules oneFile [lostRule, unusableRule]).on quietRun).2.run.violations.length = 1 := by
  have hlost : (alone oneFile quietRun lostRule).1 = .ok () := by decide +kernel
  have hmissing : (alone oneFile quietRun lostRule).2.run.violations.length = 1 := by decide +kernel
  rw [on_checkRules_cons, hlost]
  simp only
  rw [on_checkRules_cons, alone_append, alone_unusableRule, Progress.violations_append, Progress.violations_append,
    run_alone_of_error alone_unusableRule, List.length_append, List.length_append, hmissing]
  rfl

end Action

end Conformance
