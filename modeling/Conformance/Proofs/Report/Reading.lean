import Conformance.Proofs.Report.Verdict

/-!
# Reading records

A report for programs can be read back. Its lines are the records, and the first four colons of a record part its fields
(`Text.splitFirst`), as long as no other field than the message holds a colon and none holds a line feed
(`Violation.IsPlain`). What is read tells everything of a violation but the name of its module
(`Report.ofRecord?_recordLines`).
-/

namespace Conformance

namespace Text

/-- The pieces of a text between the first `n` of the separators, and what follows them. -/
def splitFirst (c : Char) : Nat → List Char → List (List Char)
  | 0, cs => [cs]
  | n + 1, cs =>
    match cs.dropWhile (· != c) with
    | [] => [cs]
    | _ :: rest => cs.takeWhile (· != c) :: splitFirst c n rest

theorem splitFirst_append {c : Char} {cs : List Char} (h : c ∉ cs) (n : Nat) (rest : List Char) :
    splitFirst c (n + 1) (cs ++ c :: rest) = cs :: splitFirst c n rest := by
  have hall : ∀ d ∈ cs, (d != c) = true := fun d hd => bne_iff_ne.mpr fun heq => h (heq ▸ hd)
  rw [splitFirst, List.dropWhile_append_of_pos hall, List.takeWhile_append_of_pos hall]
  simp

/-- The text can stand between separators. -/
structure IsField (s : String) : Prop where
  colon : ':' ∉ s.toList
  lineFeed : '\n' ∉ s.toList

instance (s : String) : Decidable (IsField s) :=
  decidable_of_iff (':' ∉ s.toList ∧ '\n' ∉ s.toList) ⟨fun h => ⟨h.1, h.2⟩, fun h => ⟨h.colon, h.lineFeed⟩⟩

end Text

namespace Violation

/-- The line that a field tells; none if the field is empty. -/
def readLine? : List Char → Option Int
  | [] => none
  | numeral => some (Text.intOf numeral)

/-- The violation that a record tells, without the name of the module. -/
def ofRecord? (record : List Char) : Option Violation :=
  match Text.splitFirst ':' 4 record with
  | [severity, category, file, line, message] =>
    some
      { file := .ofList file
        moduleName := ""
        category := ⟨.ofList category⟩
        message := .ofList message
        line := readLine? line
        severity := ⟨.ofList severity⟩ }
  | _ => none

/-- A record of the violation can be read back. -/
structure IsPlain (v : Violation) : Prop where
  severity : Text.IsField v.severity.name
  category : Text.IsField v.category.name
  file : Text.IsField v.file
  message : '\n' ∉ v.message.toList

instance (v : Violation) : Decidable v.IsPlain :=
  decidable_of_iff
    (Text.IsField v.severity.name ∧ Text.IsField v.category.name ∧ Text.IsField v.file ∧ '\n' ∉ v.message.toList)
    ⟨fun h => ⟨h.1, h.2.1, h.2.2.1, h.2.2.2⟩, fun h => ⟨h.severity, h.category, h.file, h.message⟩⟩

variable {v : Violation}

theorem IsPlain.isOneLine (h : v.IsPlain) : v.IsOneLine :=
  v.isOneLine_iff.mpr ⟨h.severity.lineFeed, h.category.lineFeed, h.file.lineFeed, h.message⟩

theorem lineField_of_eq_some {n : Int} (h : v.line = some n) : v.lineField = n.repr := by
  rw [lineField, h]
  rfl

theorem lineField_of_eq_none (h : v.line = none) : v.lineField = "" := by
  rw [lineField, h]

theorem colon_notMem_lineField (v : Violation) : ':' ∉ v.lineField.toList := by
  cases hline : v.line with
  | none => simp [lineField_of_eq_none hline]
  | some n =>
    rw [lineField_of_eq_some hline]
    exact Text.notMem_repr (by decide) (by decide) n

theorem readLine?_lineField (v : Violation) : readLine? v.lineField.toList = v.line := by
  cases hline : v.line with
  | none =>
    rw [lineField_of_eq_none hline]
    rfl
  | some n =>
    rw [lineField_of_eq_some hline, readLine?.eq_2 _ (Text.repr_ne_nil n), Text.intOf_repr]

/-- The first four colons part the fields of a record. -/
theorem splitFirst_record (h : v.IsPlain) : Text.splitFirst ':' 4 v.record.toList =
    [v.severity.name.toList, v.category.name.toList, v.file.toList, v.lineField.toList, v.message.toList] := by
  have hrecord : v.record.toList = v.severity.name.toList ++ ':' :: (v.category.name.toList ++ ':' ::
      (v.file.toList ++ ':' :: (v.lineField.toList ++ ':' :: v.message.toList))) := by
    simp [record]
  rw [hrecord, Text.splitFirst_append h.severity.colon, Text.splitFirst_append h.category.colon,
    Text.splitFirst_append h.file.colon, Text.splitFirst_append v.colon_notMem_lineField]
  rfl

/-- **A record tells its violation**, but not the name of the module. -/
theorem ofRecord?_record (h : v.IsPlain) : ofRecord? v.record.toList = some { v with moduleName := "" } := by
  simp only [ofRecord?, splitFirst_record h, readLine?_lineField, String.ofList_toList]

end Violation

namespace Report

variable {r : Report}

/-- **A report for programs tells the violations**: one on each line, in their order. It is empty only if there are
none. -/
theorem ofRecord?_recordLines (h : ∀ v ∈ r.violations, v.IsPlain) :
    r.recordLines.map Violation.ofRecord? = r.violations.map (fun v => some { v with moduleName := "" }) ∧
      (r.porcelain = "" ↔ r.violations = []) := by
  refine ⟨?_, porcelain_eq_empty⟩
  rw [recordLines_eq fun v hv => (h v hv).isOneLine, List.map_map]
  refine List.map_congr_left fun v hv => ?_
  rw [Function.comp_apply, Violation.ofRecord?_record (h v hv)]

/-- A message keeps its colons, and a line number its sign. -/
theorem ofRecord?_recordLines_colons :
    (recordLines
        { violations :=
            [{ file := "", moduleName := "M", category := .operation, message := "use a::b: no", line := some (-12) },
              { file := "b.ts", moduleName := "", category := .missing, message := "" }] }).map Violation.ofRecord? =
      [some { file := "", moduleName := "", category := .operation, message := "use a::b: no", line := some (-12) },
        some { file := "b.ts", moduleName := "", category := .missing, message := "" }] :=
  (ofRecord?_recordLines
    (List.forall_mem_cons.mpr ⟨by decide +kernel, List.forall_mem_singleton.mpr (by decide +kernel)⟩)).1

end Report

end Conformance
