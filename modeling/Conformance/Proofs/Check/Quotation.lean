import Conformance.Proofs.Path
import Conformance.Proofs.Pattern.Reach
import Conformance.Proofs.Project.Run
import Conformance.Proofs.Report.Record
import Conformance.Proofs.Wildcard

/-!
# What messages quote

Messages quote pieces of the checked text. Paths of imports and names of exports stand on one line, and so does every
denied pattern that is quoted with them, since the path or name holds its characters. Uses of denied operations and the
beginnings of business logic are quoted as they stand, and white space in them may end a line.

So the records of a check are lines iff no such use and no such beginning goes over the end of a line
(`Check.forall_isOneLine_iff`). `Run.recordLines_checkFile` says it of the report on a rule.
-/

namespace Conformance

theorem Text.ne_lineFeed_of_isWord {x : Char} (h : Text.isWord x = true) : x ≠ '\n' := by
  rintro rfl
  exact absurd h (by decide)

/-! ## Paths and names -/

/-- An import is stated by a match of one of the patterns. -/
theorem Import.exists_match_of_mem_all {text : List Char} {i : Import} (h : i ∈ Import.all text) :
    ∃ p ∈ [statement, reexport], ∃ m ∈ p.scan text, i = ofMatch m := by
  rw [Import.all, List.mem_mergeSort, List.mem_map] at h
  obtain ⟨m, hm, rfl⟩ := h
  rcases List.mem_append.mp hm with hm | hm
  · exact ⟨statement, List.mem_cons_self, m, hm, rfl⟩
  · exact ⟨reexport, List.mem_cons_of_mem _ List.mem_cons_self, m, hm, rfl⟩

theorem Import.lineFeed_notMem_path {text : List Char} {i : Import} (h : i ∈ Import.all text) :
    '\n' ∉ i.path.toList := by
  have hmarks : ∀ p ∈ [statement, reexport], p.MarksOnly (· ≠ '\n') := by
    simp [statement, reexport, quotedPath, Pattern.MarksOnly]
  obtain ⟨p, hp, m, hm, rfl⟩ := exists_match_of_mem_all h
  simpa [ofMatch] using fun hx => Pattern.markedText_of_mem_scan (hmarks p hp) hm _ hx rfl

namespace Export

theorem lineFeed_notMem_name {p : Pattern} (hp : p.MarksOnly (· ≠ '\n')) {text : List Char} {e : Export}
    (h : e ∈ (p.scan text).map ofMatch) : '\n' ∉ e.name.toList := by
  obtain ⟨m, hm, rfl⟩ := List.mem_map.mp h
  simpa [ofMatch] using fun hx => Pattern.markedText_of_mem_scan hp hm _ hx rfl

theorem declaredName_marksOnly : declaredName.MarksOnly (· ≠ '\n') := by
  rw [declaredName, Pattern.MarksOnly, Pattern.only_greedily]
  exact fun x hx => Text.ne_lineFeed_of_isWord hx

theorem declaration_marksOnly : declaration.MarksOnly (· ≠ '\n') := by
  simp [declaration, declaredName_marksOnly, Pattern.MarksOnly]

theorem utility_marksOnly : utility.MarksOnly (· ≠ '\n') := by
  simp [utility, declaredName_marksOnly, Pattern.MarksOnly]

end Export

/-- A pattern that accepts a text on one line is on one line itself. -/
theorem Wildcard.lineFeed_notMem_of_accepts {pattern candidate : String} (h : accepts pattern candidate = true)
    (hcandidate : '\n' ∉ candidate.toList) : '\n' ∉ pattern.toList :=
  fun hx => hcandidate (mem_of_accepts h hx (by decide))

theorem Operation.lineFeed_notMem_label (o : Operation) : '\n' ∉ o.label.toList := by
  cases o <;> decide

/-- What the catalogue says of a finding stands on one line. -/
theorem Logic.lineFeed_notMem_message {g : Logic.Signature} (hg : g ∈ Logic.Signature.catalogue) :
    g.severity ∈ [Severity.error, .warning] ∧ '\n' ∉ g.message.toList := by
  have hall : Logic.Signature.catalogue.all fun g =>
      g.severity ∈ [Severity.error, .warning] ∧ '\n' ∉ g.message.toList := by decide +kernel
  exact of_decide_eq_true (List.all_eq_true.mp hall g hg)

/-- A finding is made of a match of one of the signatures. -/
theorem Logic.exists_match_of_mem_findings {signatures : List Logic.Signature} {text : List Char} {f : Logic.Finding}
    (h : f ∈ Logic.findings signatures text) : f.signature ∈ signatures ∧
      ∃ m ∈ f.signature.pattern.scan text, f.line = Text.lineAt text m.whole.start := by
  obtain ⟨g, hg, hf⟩ := List.mem_flatMap.mp h
  obtain ⟨m, hm, rfl⟩ := List.mem_map.mp hf
  exact ⟨hg, m, (List.mem_filter.mp hm).1, rfl⟩

/-! ## Checks -/

namespace Subject

/-- Whether the checks look for business logic in the file. -/
def isSearched (s : Subject) : Bool := s.rule.isComponent && !s.isExempt && s.componentClass.scanned

/-- What messages quote as it stands goes over no end of a line. -/
structure QuotesLines (s : Subject) : Prop where
  /-- The uses of denied operations. -/
  operations : ∀ target ∈ s.rule.deniedOperations, ∀ o ∈ Operation.ofTarget? target,
    ∀ m ∈ o.patterns.flatMap (·.scan s.text), '\n' ∉ m.whole.text
  /-- The beginnings of business logic, where it is looked for. -/
  logic : s.isSearched → ∀ f ∈ Logic.findings Logic.Signature.catalogue s.text, '\n' ∉ f.excerpt.toList

end Subject

namespace Check

section

variable {s : Subject} (hfile : '\n' ∉ s.file.toList)
include hfile

/-- A violation is on one line iff its message is. -/
theorem isOneLine_fault_iff {category : Category} {severity : Severity} {message : String} {line : Option Int}
    (hcategory : category ∈ Category.all) (hseverity : severity ∈ [Severity.error, .warning]) :
    Violation.IsOneLine { s.fault category message severity with line := line } ↔ '\n' ∉ message.toList := by
  have hcategories : ∀ c ∈ Category.all, '\n' ∉ c.name.toList := by decide
  have hseverities : ∀ v ∈ [Severity.error, .warning], '\n' ∉ v.name.toList := by decide
  rw [Violation.isOneLine_iff]
  exact ⟨fun h => h.2.2.2, fun h => ⟨hseverities _ hseverity, hcategories _ hcategory, hfile, h⟩⟩

theorem isOneLine_size : ∀ v ∈ size s, v.IsOneLine := by
  intro v hv
  rw [size] at hv
  split at hv
  · cases hv
  · obtain rfl := List.mem_singleton.mp (List.mem_ite_nil_right.mp hv).2
    refine (isOneLine_fault_iff hfile (by decide) (by decide)).mpr ?_
    simp

theorem isOneLine_imports : ∀ v ∈ imports s, v.IsOneLine := by
  intro v hv
  obtain ⟨i, hi, hv⟩ := List.mem_flatMap.mp hv
  have hpath := Import.lineFeed_notMem_path hi
  rcases List.mem_append.mp hv with hv | hv
  · obtain ⟨p, hp, rfl⟩ := List.mem_map.mp hv
    have hpattern := Wildcard.lineFeed_notMem_of_accepts (List.mem_filter.mp hp).2 hpath
    refine (isOneLine_fault_iff hfile (by decide) (by decide)).mpr ?_
    simp [hpath, hpattern]
  · obtain rfl := List.mem_singleton.mp (List.mem_ite_nil_right.mp hv).2
    refine (isOneLine_fault_iff hfile (by decide) (by decide)).mpr ?_
    simp [hpath]

theorem isOneLine_exports : ∀ v ∈ exports s, v.IsOneLine := by
  intro v hv
  obtain ⟨e, he, hv⟩ := List.mem_flatMap.mp hv
  have hname := Export.lineFeed_notMem_name Export.declaration_marksOnly he
  rcases List.mem_append.mp hv with hv | hv
  · obtain rfl := List.mem_singleton.mp (List.mem_ite_nil_right.mp hv).2
    refine (isOneLine_fault_iff hfile (by decide) (by decide)).mpr ?_
    simp [hname]
  · obtain ⟨p, hp, rfl⟩ := List.mem_map.mp hv
    have hpattern := Wildcard.lineFeed_notMem_of_accepts (List.mem_filter.mp hp).2 hname
    refine (isOneLine_fault_iff hfile (by decide) (by decide)).mpr ?_
    simp [hname, hpattern]

theorem isOneLine_unusedExports : ∀ v ∈ unusedExports s, v.IsOneLine := by
  intro v hv
  obtain ⟨e, he, rfl⟩ := List.mem_map.mp (List.mem_ite_nil_right.mp hv).2
  have hname := Export.lineFeed_notMem_name Export.utility_marksOnly he
  refine (isOneLine_fault_iff hfile (by decide) (by decide)).mpr ?_
  simp [hname]

theorem isOneLine_containerStructure : ∀ v ∈ containerStructure s, v.IsOneLine := by
  intro v hv
  rcases List.mem_append.mp hv with hv | hv
  all_goals
    obtain rfl := List.mem_singleton.mp (List.mem_ite_nil_right.mp hv).2
    refine (isOneLine_fault_iff hfile (by decide) (by decide)).mpr ?_
    simp

theorem isOneLine_hookComplexity : ∀ v ∈ hookComplexity s, v.IsOneLine := by
  intro v hv
  rcases List.mem_append.mp hv with hv | hv
  all_goals
    obtain rfl := List.mem_singleton.mp (List.mem_ite_nil_right.mp hv).2
    refine (isOneLine_fault_iff hfile (by decide) (by decide)).mpr ?_
    simp

/-- The records of the uses of a family are lines iff the uses are. -/
theorem isOneLine_operationFaults_iff (o : Operation) : (∀ v ∈ operationFaults s o, v.IsOneLine) ↔
    ∀ m ∈ o.patterns.flatMap (·.scan s.text), '\n' ∉ m.whole.text := by
  rw [operationFaults, List.forall_mem_map]
  refine forall₂_congr fun m _ => ?_
  rw [Subject.faultAt, isOneLine_fault_iff hfile (by decide) (by decide)]
  simp [o.lineFeed_notMem_label]

theorem isOneLine_operations_iff : (∀ v ∈ operations s, v.IsOneLine) ↔
    ∀ target ∈ s.rule.deniedOperations, ∀ o ∈ Operation.ofTarget? target,
      ∀ m ∈ o.patterns.flatMap (·.scan s.text), '\n' ∉ m.whole.text := by
  rw [operations, List.forall_mem_flatMap]
  refine forall₂_congr fun target _ => ?_
  cases Operation.ofTarget? target with
  | none => simp
  | some o => simpa using isOneLine_operationFaults_iff hfile o

/-- The records of business logic are lines iff the excerpts are. -/
theorem isOneLine_logicFindings_iff : (∀ v ∈ logicFindings s, v.IsOneLine) ↔
    ∀ f ∈ Logic.findings Logic.Signature.catalogue s.text, '\n' ∉ f.excerpt.toList := by
  rw [logicFindings, List.forall_mem_map]
  refine forall₂_congr fun f hf => ?_
  obtain ⟨hseverity, hmessage⟩ := Logic.lineFeed_notMem_message (Logic.exists_match_of_mem_findings hf).1
  rw [isOneLine_fault_iff hfile (by decide) hseverity]
  simp [Logic.Finding.message, hmessage]

theorem isOneLine_businessLogic_iff : (∀ v ∈ businessLogic s, v.IsOneLine) ↔
    (s.isSearched → ∀ f ∈ Logic.findings Logic.Signature.catalogue s.text, '\n' ∉ f.excerpt.toList) := by
  have hcontainer := isOneLine_containerStructure hfile
  have hhooks := isOneLine_hookComplexity hfile
  rw [businessLogic, Subject.isSearched]
  by_cases hskip : !s.rule.isComponent || s.isExempt
  · rw [if_pos hskip]
    grind
  · rw [if_neg hskip, List.forall_mem_append]
    have hfirst : ∀ v ∈ if s.rule.role = .container then containerStructure s else [], v.IsOneLine := by
      intro v hv
      exact hcontainer v (List.mem_ite_nil_right.mp hv).2
    by_cases hscan : s.componentClass.scanned
    · rw [if_pos hscan, List.forall_mem_append, isOneLine_logicFindings_iff hfile]
      grind
    · rw [if_neg hscan]
      grind

/-- **The records of a check are lines iff what they quote as it stands is.** -/
theorem forall_isOneLine_iff : (∀ v ∈ ofFile.flatMap fun check => check s, v.IsOneLine) ↔ s.QuotesLines := by
  simp only [ofFile, List.flatMap_cons, List.flatMap_nil, List.append_nil, List.forall_mem_append]
  rw [isOneLine_operations_iff hfile, isOneLine_businessLogic_iff hfile]
  constructor
  · rintro ⟨-, -, hoperations, -, -, hlogic⟩
    exact ⟨hoperations, hlogic⟩
  · intro h
    exact ⟨isOneLine_size hfile, isOneLine_imports hfile, h.operations, isOneLine_exports hfile,
      isOneLine_unusedExports hfile, h.logic⟩

end

end Check

/-! ## Reports on one target -/

namespace Run

section

variable {d : Disk} {r next : Run} {rule : Rule} {log : List LogRecord}

theorem isOneLine_missing (hlocation : '\n' ∉ rule.location.toList) :
    (r.fresh.missing (r.target rule) rule).IsOneLine := by
  have hfile := Path.notMem_display (by decide) (by decide) hlocation r.root
  rw [Violation.isOneLine_iff]
  exact ⟨show '\n' ∉ Severity.error.name.toList by decide, show '\n' ∉ Category.missing.name.toList by decide, hfile,
    show '\n' ∉ "File specified in .rux does not exist".toList by decide⟩

/-- The records of a check of a target are lines iff there is no file or the messages quote lines only. -/
theorem forall_isOneLine_checkFile_iff (hlocation : '\n' ∉ rule.location.toList)
    (h : r.fresh.checkFile d (r.target rule) rule = .ok (next, log)) :
    (∀ v ∈ next.violations, v.IsOneLine) ↔
      ∀ bytes, d.file? (r.target rule) = .ok (some bytes) →
        (r.subject (r.target rule) rule bytes).QuotesLines := by
  rw [checkFile] at h
  cases htarget : d.file? (r.target rule) with
  | error e => simp [htarget] at h
  | ok bytes? =>
    cases bytes? with
    | none =>
      simp only [htarget, Except.ok.injEq, Prod.mk.injEq] at h
      obtain ⟨rfl, -⟩ := h
      have hmissing : ∀ v ∈ (r.fresh.add [r.fresh.missing (r.target rule) rule]).violations, v.IsOneLine := by
        intro v hv
        obtain rfl := List.mem_singleton.mp hv
        exact isOneLine_missing hlocation
      simpa using hmissing
    | some bytes =>
      simp only [htarget, Except.ok.injEq, Prod.mk.injEq] at h
      obtain ⟨rfl, -⟩ := h
      have hfile : '\n' ∉ (r.subject (r.target rule) rule bytes).file.toList :=
        Path.notMem_display (by decide) (by decide) hlocation r.root
      have hiff := Check.forall_isOneLine_iff hfile
      simpa [add, fresh, subject] using hiff

/-- **A report on a target has one line for each violation, its record, iff no message quotes the end of a line**: no
use of a denied operation and no beginning of business logic goes over one. -/
theorem recordLines_checkFile (hlocation : '\n' ∉ rule.location.toList)
    (h : r.fresh.checkFile d (r.target rule) rule = .ok (next, log)) :
    let report : Report := { violations := next.violations }
    let quotesLines := ∀ bytes, d.file? (r.target rule) = .ok (some bytes) →
      (r.subject (r.target rule) rule bytes).QuotesLines
    (report.recordLines.length = report.violations.length ↔ quotesLines) ∧
      (report.recordLines = report.violations.map (·.record.toList) ↔ quotesLines) := by
  intro report quotesLines
  have hiff : (∀ v ∈ report.violations, v.IsOneLine) ↔ quotesLines := forall_isOneLine_checkFile_iff hlocation h
  have hlength : report.recordLines.length = report.violations.length ↔ quotesLines :=
    Report.length_recordLines.trans hiff
  refine ⟨hlength, fun heq => hlength.mp ?_, fun hquotes => Report.recordLines_eq (hiff.mpr hquotes)⟩
  rw [heq, List.length_map]

end

/-- A disk with a file that holds a call. -/
def callDisk (call : String) : Disk := ⟨.folder [("a.ts", .file ⟨call.toUTF8.data⟩)], []⟩

/-- A rule that denies calls of the network. -/
def offlineRule : Rule := { location := "a.ts", deniedOperations := ["io.network.*"] }

/-- The check of the file with the call under the rule, in a project at the root of the disk. -/
def checkCall (call : String) : Except AccessError (Run × List LogRecord) :=
  (Run.mk ⟨.root, []⟩ {} [] 0).fresh.checkFile (callDisk call) ((Run.mk ⟨.root, []⟩ {} [] 0).target offlineRule)
    offlineRule

/-- How many violations a check found, and how many lines the report on them has. -/
def counts (checked : Except AccessError (Run × List LogRecord)) : Option (Nat × Nat) :=
  checked.toOption.map fun p => (p.1.violations.length, Report.recordLines { violations := p.1.violations } |>.length)

theorem recordLines_checkFile_call : ∃ next log, checkCall "fetch (1)" = .ok (next, log) ∧
    next.violations.length = 1 ∧
    Report.recordLines { violations := next.violations } = next.violations.map (·.record.toList) := by
  have hcounts : counts (checkCall "fetch (1)") = some (1, 1) := by decide +kernel
  cases h : checkCall "fetch (1)" with
  | error e =>
    rw [h] at hcounts
    cases hcounts
  | ok p =>
    obtain ⟨next, log⟩ := p
    obtain ⟨hviolations, hlines⟩ : next.violations.length = 1 ∧
        (Report.recordLines { violations := next.violations }).length = 1 := by
      simpa [h, counts, Except.toOption] using hcounts
    obtain ⟨hlength, hrecords⟩ := recordLines_checkFile (by decide) h
    exact ⟨next, log, rfl, hviolations, hrecords.mpr (hlength.mp (hlines.trans hviolations.symm))⟩

/-- **A call that goes over two lines makes two lines** of one violation. -/
theorem not_forall_length_recordLines : ¬ ∀ (d : Disk) (r : Run) (rule : Rule) (next : Run) (log : List LogRecord),
    '\n' ∉ rule.location.toList → r.fresh.checkFile d (r.target rule) rule = .ok (next, log) →
      (Report.recordLines { violations := next.violations }).length = next.violations.length := by
  intro hall
  have hcounts : counts (checkCall "fetch\n(1)") = some (1, 2) := by decide +kernel
  cases h : checkCall "fetch\n(1)" with
  | error e =>
    rw [h] at hcounts
    cases hcounts
  | ok p =>
    obtain ⟨next, log⟩ := p
    obtain ⟨hviolations, hlines⟩ : next.violations.length = 1 ∧
        (Report.recordLines { violations := next.violations }).length = 2 := by
      simpa [h, counts, Except.toOption] using hcounts
    have hequal := hall _ _ _ _ _ (by decide) h
    omega

end Run

end Conformance
