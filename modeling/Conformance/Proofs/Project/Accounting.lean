import Conformance.Proofs.Check.Arising
import Conformance.Proofs.Path
import Conformance.Proofs.Project.RuleSearch
import Conformance.Proofs.Project.Run

/-!
# Every rule file counts once

A rule that does not stop a run has no target, misses it, or has it checked, and it counts in one of these ways only
(`Run.balance_findings`). Over a run the three numbers add up to the number of rules (`Run.balance`).

Rule files are shown under different names (`Project.nodup_names`), so no file's notes replace those of another
(`Project.notesOf_eq`). `Project.check_accounts` says both of the report on a project.
-/

namespace Conformance

namespace Run

variable {d : Disk} {r : Run}

/-- A target that is no file is the one thing that is wrong. -/
theorem findings_of_missing {rule : Rule} (hnone : (r.alone d rule).error? = none) (hinert : ¬ rule.isInert)
    (hfile : ¬ d.hasFile (r.target rule)) : r.findings d rule = [r.missing (r.target rule) rule] := by
  have hstep := alone_step (d := d) (r := r) rule
  rw [findings]
  generalize r.alone d rule = c at hnone hstep
  cases hstep with
  | inert h => exact absurd h hinert
  | stopped => cases hnone
  | missing => rfl
  | checked h htarget => exact absurd (Disk.hasFile_iff.mpr ⟨_, htarget⟩) hfile

/-- **A rule without a target, a missing target or a checked file**: each rule is one of them. -/
theorem balance_findings {rule : Rule} (hnone : (r.alone d rule).error? = none) :
    (if rule.isInert then 1 else 0) + (r.findings d rule).countP (·.category = .missing) +
      (if r.reaches d rule then 1 else 0) = 1 := by
  have hstep := alone_step (d := d) (r := r) rule
  rw [findings]
  generalize r.alone d rule = c at hnone hstep
  cases hstep with
  | inert h => simp [h, reaches, fresh]
  | stopped => cases hnone
  | missing h htarget => simp [h, reaches, Disk.hasFile_iff, htarget, fresh, add, missing]
  | checked h htarget =>
    simp [h, reaches, Disk.hasFile_iff, htarget, fresh, add, Check.countP_missing]

/-- **The three kinds of rules add up.** -/
theorem balance {rules : List Rule} (hnone : ∀ rule ∈ rules, (r.alone d rule).error? = none) :
    rules.length = rules.countP (·.isInert) + (rules.flatMap (r.findings d)).countP (·.category = .missing) +
      rules.countP (r.reaches d) := by
  induction rules with
  | nil => rfl
  | cons rule rules ih =>
    obtain ⟨hrule, hrules⟩ := List.forall_mem_cons.mp hnone
    have hfirst := balance_findings hrule
    have hrest := ih hrules
    simp only [List.length_cons, List.countP_cons, List.flatMap_cons, List.countP_append]
    omega

end Run

/-! ## Notes by file -/

namespace Report

variable {α β : Type}

/-- The value of a new key comes last. -/
theorem put_of_notMem {key : String} {value : α} {es : List (String × α)} (h : key ∉ es.map Prod.fst) :
    put key value es = es ++ [(key, value)] := by
  induction es with
  | nil => rfl
  | cons e es ih =>
    simp only [List.map_cons, List.mem_cons, not_or] at h
    rw [put, if_neg (Ne.symm h.1), ih h.2, List.cons_append]

/-- Values of distinct keys stand one after the other. -/
theorem foldl_put {key : β → String} {value : β → α} {xs : List β} {es : List (String × α)}
    (h : (es.map Prod.fst ++ xs.map key).Nodup) :
    xs.foldl (fun es x => put (key x) (value x) es) es = es ++ xs.map fun x => (key x, value x) := by
  induction xs generalizing es with
  | nil => simp
  | cons x xs ih =>
    have hfresh : key x ∉ es.map Prod.fst := fun hmem =>
      (List.nodup_append.mp h).2.2 _ hmem _ (by simp) rfl
    rw [List.foldl_cons, put_of_notMem hfresh, ih (by simpa using h)]
    simp

end Report

namespace Project

/-- **Rule files of a well-formed tree are shown under different names.** -/
theorem nodup_names {entries : List (String × Tree)} {search : RuleSearch} {root : Path}
    (hw : (Tree.folder entries).WellFormed) : (((search.find entries).map (readRule root)).map (·.name)).Nodup := by
  rw [List.map_map, List.nodup_iff_pairwise_ne, List.pairwise_map]
  refine (RuleSearch.pairwise_find hw).imp_of_mem fun {f g} hf hg hlt hname => ?_
  obtain ⟨hf, hf'⟩ := (RuleSearch.mem_find hw).mp hf
  obtain ⟨hg, hg'⟩ := (RuleSearch.mem_find hw).mp hg
  simp only [Function.comp_apply, readRule, Path.display_join] at hname
  have hway := Path.toString_inj hf'.ne_nil hg'.ne_nil (hw.slashless_of_at? hf) (hw.slashless_of_at? hg) hname
  exact List.lt_irrefl g.way (hway ▸ hlt)

/-- Files of different names keep their notes. -/
theorem notesOf_eq {files : List RuleFile} (h : (files.map (·.name)).Nodup) :
    notesOf files = (files.filter fun f => !f.notes.isEmpty).map fun f => (f.name, f.notes) := by
  rw [notesOf, Report.foldl_put]
  · rfl
  · exact h.sublist (List.filter_sublist.map _)

/-- What a report holds, if there is one. -/
theorem check_eq_ok {d : Disk} {root : Path} {settings : Settings} {report : Report} {log : List LogRecord}
    (h : check d root settings = (.ok report, log)) :
    ∃ found, ruleFiles d root (searchOf settings) = .ok found ∧
      let files := found.map (readRule root)
      let checked := Run.checkRules d { root, settings } (files.map (·.parsed.rule))
      checked.error? = none ∧ report.violations = checked.run.violations ∧ report.rulesEvaluated = files.length ∧
        report.filesChecked = checked.run.checkedFiles ∧ report.notes = notesOf files := by
  rw [check] at h
  cases hfound : ruleFiles d root (searchOf settings) with
  | error e => simp [hfound] at h
  | ok found =>
    refine ⟨found, rfl, ?_⟩
    simp only [hfound] at h
    split at h
    · simp at h
    · rename_i herror
      simp only [Prod.mk.injEq, Except.ok.injEq] at h
      obtain ⟨rfl, -⟩ := h
      exact ⟨herror, rfl, rfl, rfl, rfl⟩

/-- A project has a report if its rule files can be listed and no rule stops the run. -/
theorem exists_report {d : Disk} {root : Path} {settings : Settings} {found : List FoundFile}
    (hfound : ruleFiles d root (searchOf settings) = .ok found)
    (hnone : ∀ f ∈ found, (Run.alone d { root, settings } (readRule root f).parsed.rule).error? = none) :
    ∃ report log, check d root settings = (.ok report, log) := by
  have herror :
      (Run.checkRules d { root, settings } ((found.map (readRule root)).map (·.parsed.rule))).error? = none := by
    simpa [Run.error_checkRules_eq_none_iff] using hnone
  rw [check, hfound]
  simp only [herror]
  exact ⟨_, _, rfl⟩

/-- **Every rule file is accounted for once.** The report on a project counts its rule files; each of them has no
target, misses its target or has it checked, and a target that is missed is the one violation of its rule. The notes
are those of the rule files that have any, file by file in the order in which the files were found, all of them and
under different names. -/
theorem check_accounts {d : Disk} {root : Path} {settings : Settings} {report : Report} {log : List LogRecord}
    (hd : d.root.WellFormed) (h : check d root settings = (.ok report, log)) :
    ∃ found, ruleFiles d root (searchOf settings) = .ok found ∧
      let files := found.map (readRule root)
      let rules := files.map (·.parsed.rule)
      let r : Run := { root, settings }
      report.rulesEvaluated = found.length ∧
      report.rulesEvaluated = rules.countP (·.isInert) +
        report.violations.countP (·.category = .missing) + report.filesChecked ∧
      report.violations = rules.flatMap (r.findings d) ∧
      (∀ rule ∈ rules, ¬ rule.isInert → ¬ d.hasFile (r.target rule) →
        r.findings d rule = [r.missing (r.target rule) rule]) ∧
      report.notes = (files.filter fun f => !f.parsed.diagnostics.isEmpty).map (fun f =>
        (f.name, f.parsed.diagnostics.map fun x => ⟨x.position.line, x.position.column, x.message⟩)) ∧
      (report.notes.map Prod.fst).Nodup := by
  obtain ⟨found, hfound, hreport⟩ := check_eq_ok h
  refine ⟨found, hfound, ?_⟩
  intro files rules r
  obtain ⟨hnone, hviolations, hrules, hchecked, hnotes⟩ := hreport
  have hall := Run.error_checkRules_eq_none_iff.mp hnone
  rw [Run.run_checkRules_of_none hnone] at hviolations hchecked
  obtain ⟨entries, hroot, rfl⟩ := ruleFiles_eq_ok_iff.mp hfound
  have hnames : (files.map (·.name)).Nodup := nodup_names (d.wellFormed_get hd hroot)
  rw [notesOf_eq hnames] at hnotes
  have hviolations : report.violations = rules.flatMap (r.findings d) := hviolations.trans (List.nil_append _)
  have hchecked : report.filesChecked = rules.countP (r.reaches d) := hchecked.trans (Nat.zero_add _)
  have hcount : report.rulesEvaluated = rules.length := hrules.trans (List.length_map _).symm
  refine ⟨hrules.trans (List.length_map _), ?_, hviolations, fun rule hrule => ?_, ?_, ?_⟩
  · rw [hcount, hviolations, hchecked]
    exact Run.balance hall
  · exact Run.findings_of_missing (hall rule hrule)
  · rw [hnotes]
    simp only [RuleFile.notes, List.isEmpty_map]
  · rw [hnotes, List.map_map]
    exact hnames.sublist (List.filter_sublist.map _)

/-- A project with a rule whose target is there, one whose target is missing and one without a target. -/
def smallProject : List (String × Tree) :=
  [("a.rux", .file ⟨"location: \"a.ts\"".toUTF8.data⟩), ("a.ts", .file ⟨#[]⟩),
   ("b.rux", .file ⟨"location: \"b.ts\" $".toUTF8.data⟩), ("c.rux", .file ⟨#[]⟩)]

/-- The rule files of the small project. -/
def smallRuleFiles : List FoundFile :=
  [⟨["a.rux"], ⟨"location: \"a.ts\"".toUTF8.data⟩⟩, ⟨["b.rux"], ⟨"location: \"b.ts\" $".toUTF8.data⟩⟩,
   ⟨["c.rux"], ⟨#[]⟩⟩]

theorem check_accounts_smallProject :
    let d : Disk := ⟨.folder smallProject, []⟩
    d.root.WellFormed ∧ ∃ report log, check d ⟨.root, []⟩ {} = (.ok report, log) ∧ report.rulesEvaluated = 3 ∧
      3 = 1 + report.violations.countP (·.category = .missing) + report.filesChecked ∧
      (report.notes.map Prod.fst).Nodup := by
  intro d
  have hd : d.root.WellFormed := by decide
  have hfind : RuleSearch.find (searchOf {}) smallProject = smallRuleFiles := by
    -- the entries stand in the order of their names, so sorting leaves them as they are
    rw [RuleSearch.find, RuleSearch.inNameOrder, List.mergeSort_of_pairwise (by decide)]
    rfl
  have hfound := ruleFiles_eq_ok_iff.mpr ⟨smallProject, (rfl : d.get ⟨.root, []⟩ = _), hfind⟩
  obtain ⟨report, log, h⟩ := exists_report hfound (by decide +kernel)
  obtain ⟨found, hfound', hcount, hbalance, -, -, -, hnames⟩ := check_accounts hd h
  obtain rfl := Except.ok.inj (hfound.symm.trans hfound')
  have hinert : ((smallRuleFiles.map (readRule ⟨.root, []⟩)).map (·.parsed.rule)).countP (·.isInert) = 1 := by
    decide +kernel
  rw [hinert, hcount] at hbalance
  exact ⟨hd, report, log, h, hcount, hbalance, hnames⟩

end Project

end Conformance
