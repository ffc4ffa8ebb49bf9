import Conformance.Report.Structured
import Conformance.Proofs.Json.Reading
import Conformance.Proofs.Report.Reading

/-!
# Reports as JSON tell everything

The reader of JSON texts gets back the tree of a report. A tree tells its violations (`Violation.tree_inj`), its notes,
which are written as lines first (`Note.text_inj`), and the numbers of the summary. So two reports of one text are the
same but for what a numeral leaves open of the time that the run took (`Report.structured_eq_iff`).
-/

namespace Conformance

/-! ## Notes -/

namespace Note

/-- The note that a line tells. -/
def ofText? (line : List Char) : Option Note :=
  match Text.splitFirst ':' 2 line with
  | [line, column, ' ' :: message] => some ⟨Text.intOf line, Text.intOf column, .ofList message⟩
  | _ => none

/-- **A line tells its note.** -/
theorem ofText?_text (n : Note) : ofText? n.text.toList = some n := by
  have hcolon (k : Int) : ':' ∉ k.repr.toList := Text.notMem_repr (by decide) (by decide) k
  have htext : n.text.toList =
      n.line.repr.toList ++ ':' :: (n.column.repr.toList ++ ':' :: (' ' :: n.message.toList)) := by
    simp [text]
  rw [ofText?, htext, Text.splitFirst_append (hcolon _), Text.splitFirst_append (hcolon _), Text.splitFirst]
  simp only [Text.intOf_repr, String.ofList_toList]

theorem text_inj {m n : Note} (h : m.text = n.text) : m = n := by
  have hread : some m = some n := by rw [← ofText?_text, h, ofText?_text]
  exact Option.some.inj hread

end Note

/-! ## Violations -/

namespace Violation

/-- A line number is not mistaken for a missing line. -/
theorem repr_ne_null (n : Int) : n.repr ≠ "null" := by
  intro heq
  have hmem : 'n' ∉ n.repr.toList := Text.notMem_repr (by decide) (by decide) n
  exact hmem (heq ▸ by decide)

/-- The tree of a line tells whether there is one, and which. -/
theorem tree_line_inj {m n : Option Int}
    (h : ((m.map Json.int).getD .null).tree = ((n.map Json.int).getD .null).tree) : m = n := by
  cases m with
  | none =>
    cases n with
    | none => rfl
    | some n => exact absurd (Json.Tree.word.inj h).symm (repr_ne_null n)
  | some m =>
    cases n with
    | none => exact absurd (Json.Tree.word.inj h) (repr_ne_null m)
    | some n => exact congrArg some (Text.repr_inj (congrArg String.toList (Json.Tree.word.inj h)))

/-- **The tree of a violation tells the violation.** -/
theorem tree_inj {v w : Violation} (h : v.toJson.tree = w.toJson.tree) : v = w := by
  obtain ⟨file, moduleName, ⟨category⟩, message, line, ⟨severity⟩⟩ := v
  obtain ⟨file', moduleName', ⟨category'⟩, message', line', ⟨severity'⟩⟩ := w
  simp only [toJson, Json.tree, Json.memberTrees, Json.Tree.object.injEq, List.cons.injEq, Prod.mk.injEq,
    Json.Tree.text.injEq, true_and, and_true] at h
  obtain ⟨rfl, rfl, rfl, rfl, hline, rfl⟩ := h
  rw [tree_line_inj hline]

end Violation

namespace Report

/-! ## Reports -/

variable (r : Report)

/-- The notes of a report as a tree. -/
def notesTree : Json.Tree := .object (r.notes.map fun e => (e.1, .array (e.2.map fun n => .text n.text)))

/-- The summary of a report as a tree. -/
def summaryTree : Json.Tree :=
  .object
    [("rules_evaluated", .word (toString r.rulesEvaluated)), ("files_checked", .word (toString r.filesChecked)),
      ("errors", .word (toString r.errors.length)), ("warnings", .word (toString r.warnings.length)),
      ("passed", .word (if r.passed then "true" else "false")),
      ("elapsed_ms", .word (Decimal.floatText Json.specialNames r.elapsed))]

theorem tree_toJson : r.toJson.tree = .object
    [("violations", .array (r.violations.map (·.toJson.tree))), ("diagnostics", r.notesTree),
      ("summary", r.summaryTree)] := by
  simp only [toJson, Json.tree, Json.memberTrees, Json.trees_eq_map, Json.memberTrees_eq_map, List.map_map,
    Function.comp_def]
  rfl

/-- **The reader gets back the tree of a report.** -/
theorem read?_structured : Json.read? r.structured.toList = some (.object
    [("violations", .array (r.violations.map (·.toJson.tree))), ("diagnostics", r.notesTree),
      ("summary", r.summaryTree)]) := by
  rw [structured, Json.read?_render, tree_toJson]

variable {r} {r' : Report}

theorem notesTree_inj (h : r.notesTree = r'.notesTree) : r.notes = r'.notes := by
  rw [notesTree, notesTree, Json.Tree.object.injEq] at h
  refine List.map_injective_iff.mpr ?_ h
  rintro ⟨file, notes⟩ ⟨file', notes'⟩ hentry
  obtain ⟨rfl, hnotes⟩ := Prod.mk.inj hentry
  have hinj : Function.Injective fun n : Note => Json.Tree.text n.text :=
    fun _ _ heq => Note.text_inj (Json.Tree.text.inj heq)
  have hsame : notes = notes' := List.map_injective_iff.mpr hinj (Json.Tree.array.inj hnotes)
  rw [hsame]

/-- **Two reports of one text are the same** but for what a numeral leaves open of the time that the run took. -/
theorem structured_eq_iff : r.structured = r'.structured ↔
    r.violations = r'.violations ∧ r.rulesEvaluated = r'.rulesEvaluated ∧ r.filesChecked = r'.filesChecked ∧
      r.notes = r'.notes ∧
        Decimal.floatText Json.specialNames r.elapsed = Decimal.floatText Json.specialNames r'.elapsed := by
  constructor
  · intro h
    have htree := Json.tree_eq h
    rw [tree_toJson, tree_toJson] at htree
    simp only [summaryTree, Json.Tree.object.injEq, Json.Tree.array.injEq, Json.Tree.word.injEq, List.cons.injEq,
      Prod.mk.injEq, true_and, and_true] at htree
    obtain ⟨hviolations, hnotes, hrules, hfiles, -, -, -, helapsed⟩ := htree
    have hinj : Function.Injective fun v : Violation => v.toJson.tree := fun _ _ => Violation.tree_inj
    exact ⟨List.map_injective_iff.mpr hinj hviolations, Text.toString_nat_inj hrules, Text.toString_nat_inj hfiles,
      notesTree_inj hnotes, helapsed⟩
  · rintro ⟨hviolations, hrules, hfiles, hnotes, helapsed⟩
    simp only [structured, Json.render, toJson, Json.chars, Json.memberChars, errors, warnings, passed, hviolations,
      hrules, hfiles, hnotes, helapsed]

theorem length_errors (r : Report) : r.errors.length = r.violations.countP (·.severity = .error) :=
  List.countP_eq_length_filter.symm

theorem length_warnings (r : Report) : r.warnings.length = r.violations.countP (·.severity = .warning) :=
  List.countP_eq_length_filter.symm

/-- **The text of a report tells the report**: reports of one text have the same violations, numbers and notes, and the
summary that is read from the text counts the violations. -/
theorem structured_inj_and_summary (r : Report) :
    (∀ r' : Report, r.structured = r'.structured ↔
      r.violations = r'.violations ∧ r.rulesEvaluated = r'.rulesEvaluated ∧ r.filesChecked = r'.filesChecked ∧
        r.notes = r'.notes ∧
          Decimal.floatText Json.specialNames r.elapsed = Decimal.floatText Json.specialNames r'.elapsed) ∧
      ∃ summary, (Json.read? r.structured.toList).bind (·.member? "summary") = some summary ∧
        summary.member? "errors" = some (.word (toString (r.violations.countP (·.severity = .error)))) ∧
        summary.member? "warnings" = some (.word (toString (r.violations.countP (·.severity = .warning)))) ∧
        summary.member? "passed" =
          some (.word (if r.violations.countP (·.severity = .error) = 0 then "true" else "false")) := by
  refine ⟨fun r' => structured_eq_iff, r.summaryTree, ?_, ?_, ?_, ?_⟩
  · rw [read?_structured]
    rfl
  · rw [← length_errors]
    rfl
  · rw [← length_warnings]
    rfl
  · rw [← length_errors]
    have hpassed : r.passed ↔ r.errors.length = 0 := by rw [passed, List.isEmpty_iff, List.length_eq_zero_iff]
    simp only [← hpassed]
    rfl

end Report

end Conformance
