import Conformance.Project.Run
import Conformance.Proofs.Check.Opening
import Mathlib.Data.List.Basic

/-!
# Files with empty lines in front

Empty lines in front of a file move what the checks find in it down, and change nothing else about it
(`Check.ofFile_padded`). Only the length of the file may be wrong now, so this is said of rules that do not limit it.

Matches move (`scan_padded`), and with them the lines of what they show. What is asked of the whole text is whether
certain words occur in it. The context of a match does not change: where it begins before the match and is cut off at
the start of the file it takes some of the empty lines in, which become blanks and are trimmed away
(`Logic.context_padded`).
-/

namespace Conformance

open Pattern

/-- The same violation `k` lines further down. What stands in no line still does not. -/
def Violation.lowered (k : Nat) (v : Violation) : Violation := { v with line := v.line.map (· + (k : Int)) }

namespace Subject

/-- The subject with `k` empty lines in front of its text. -/
def padded (k : Nat) (s : Subject) : Subject := { s with text := Text.padded k s.text }

variable (k : Nat) (s : Subject)

theorem text_padded : (s.padded k).text = Text.padded k s.text := rfl

theorem rule_padded : (s.padded k).rule = s.rule := rfl

theorem settings_padded : (s.padded k).settings = s.settings := rfl

theorem fault_padded (category : Category) (message : String) (severity : Severity) :
    (s.padded k).fault category message severity = (s.fault category message severity).lowered k := rfl

theorem faultAt_padded (offset : Nat) (category : Category) (message : String) (severity : Severity) :
    (s.padded k).faultAt (offset + k) category message severity =
      (s.faultAt offset category message severity).lowered k := by
  rw [faultAt, padded, Text.lineAt_padded]
  rfl

theorem mentions_padded (word : String) (h : '\n' ∉ word.toList) : (s.padded k).mentions word = s.mentions word :=
  Text.occurs_padded k s.text h

theorem componentClass_padded : (s.padded k).componentClass = s.componentClass := by
  have hmentions := mentions_padded k s
  simp only [componentClass, isKeptFromState]
  rw [hmentions _ (by decide), hmentions _ (by decide), hmentions _ (by decide), hmentions _ (by decide),
    hmentions _ (by decide)]
  rfl

end Subject

/-! ## Imports and exports -/

/-- The same import `k` characters further on. -/
def Import.moved (k : Nat) (i : Import) : Import := { i with offset := i.offset + k }

theorem Import.ofMatch_moved (k : Nat) (m : Match) : ofMatch (m.moved k) = (ofMatch m).moved k := by
  rw [ofMatch, Match.markedText_moved]
  rfl

theorem Import.all_padded (k : Nat) (content : List Char) :
    Import.all (Text.padded k content) = (Import.all content).map (Import.moved k) := by
  have hmatches : ∀ ms : List Match, (ms.map (Match.moved k)).map ofMatch = (ms.map ofMatch).map (Import.moved k) := by
    intro ms
    rw [List.map_map, List.map_map]
    exact List.map_congr_left fun m _ => ofMatch_moved k m
  rw [Import.all, Import.all, scan_padded statement_startsInLine, scan_padded reexport_startsInLine, ← List.map_append,
    hmatches]
  -- all offsets grow by the same, so that their order stays
  refine (List.map_mergeSort fun a _ b _ => ?_).symm
  simp [Import.moved]

/-- The same export `k` characters further on. -/
def Export.moved (k : Nat) (e : Export) : Export := { e with offset := e.offset + k }

theorem Export.map_ofMatch_moved (k : Nat) (ms : List Match) :
    (ms.map (Match.moved k)).map ofMatch = (ms.map ofMatch).map (Export.moved k) := by
  rw [List.map_map, List.map_map]
  refine List.map_congr_left fun m _ => ?_
  simp only [Function.comp_apply, ofMatch, Match.markedText_moved, Match.start_moved, Export.moved]

theorem Export.all_padded (k : Nat) (content : List Char) :
    Export.all (Text.padded k content) = (Export.all content).map (Export.moved k) := by
  rw [Export.all, Export.all, scan_padded declaration_startsInLine, map_ofMatch_moved]

theorem Export.utilities_padded (k : Nat) (content : List Char) :
    Export.utilities (Text.padded k content) = (Export.utilities content).map (Export.moved k) := by
  rw [Export.utilities, Export.utilities, scan_padded utility_startsInLine, map_ofMatch_moved]

/-! ## Business logic -/

namespace Logic

variable (k : Nat)

/-- **The context of a match does not change.** -/
theorem context_padded (content : List Char) (m : Match) :
    context (Text.padded k content) (m.moved k) = context content m := by
  have hstart : m.whole.start + k - contextRadius - k = m.whole.start - contextRadius := by omega
  -- the context has become longer by the empty lines that it takes in
  have hlength : m.stop + k + contextRadius - (m.whole.start + k - contextRadius) =
      m.stop + contextRadius - (m.whole.start - contextRadius) +
        (k - (m.whole.start + k - contextRadius)) := by
    omega
  have hblanks : ∀ c ∈ List.replicate (k - (m.whole.start + k - contextRadius)) ' ', Text.isBlank c = true := by
    intro c hc
    rw [List.eq_of_mem_replicate hc]
    decide
  simp only [context, Match.start_moved, Match.stop_moved, Text.drop_padded, hstart, hlength, Text.take_padded]
  rw [Text.padded, List.map_append, List.map_replicate]
  exact Text.trim_blanks_append _ hblanks

/-- Whether a signature lets a match pass depends on what is matched and on the context, not on where the match
stands. -/
def Signature.IgnoresPlace (g : Signature) : Prop :=
  ∀ (m : Match) (around : List Char), g.passes (m.moved k) around = g.passes m around

theorem Signature.ignoresPlace_of_mem_catalogue : ∀ g ∈ Signature.catalogue, g.IgnoresPlace k := by
  have hnone : ∀ {g : Signature}, g.excuse? = none → g.IgnoresPlace k := by
    intro g hg m around
    simp [passes, hg]
  have hsome : ∀ {g : Signature} {excuse : Match → List Char → Bool}, g.excuse? = some excuse →
      (∀ m around, excuse (m.moved k) around = excuse m around) → g.IgnoresPlace k := by
    intro g excuse hg hexcuse m around
    simp [passes, hg, hexcuse]
  have hname : ∀ m around, isInterfaceFunction (m.moved k) around = isInterfaceFunction m around := by
    intro m around
    rw [isInterfaceFunction, Match.markedText_moved, isInterfaceFunction]
  simp only [catalogue, List.forall_mem_cons]
  exact ⟨hsome rfl fun _ _ => rfl, hnone rfl, hsome rfl fun _ _ => rfl, hsome rfl fun _ _ => rfl, hnone rfl,
    hnone rfl, hsome rfl fun _ _ => rfl, hsome rfl hname, hnone rfl, hnone rfl, hnone rfl, hnone rfl, hnone rfl,
    by simp⟩

/-- The same finding `k` lines further down. -/
def Finding.lowered (f : Finding) : Finding := { f with line := f.line + k }

theorem findings_padded (content : List Char) : findings Signature.catalogue (Text.padded k content) =
    (findings Signature.catalogue content).map (Finding.lowered k) := by
  rw [findings, findings, List.map_flatMap]
  refine List.flatMap_congr fun g hg => ?_
  have hkept : ((fun m => !g.passes m (context (Text.padded k content) m)) ∘ Match.moved k) =
      fun m => !g.passes m (context content m) := by
    funext m
    rw [Function.comp_apply, context_padded, Signature.ignoresPlace_of_mem_catalogue k g hg]
  rw [Signature.findings, Signature.findings, scan_padded (Signature.startsInLine_of_mem_catalogue g hg),
    List.filter_map, hkept, List.map_map, List.map_map]
  refine List.map_congr_left fun m _ => ?_
  simp only [Function.comp_apply, Match.start_moved, Text.lineAt_padded, Match.text_moved, Finding.lowered]

end Logic

/-! ## Checks -/

namespace Check

/-- A violation that is given on a condition moves down on the same condition. -/
theorem map_lowered_guarded (k : Nat) {c : Prop} [Decidable c] (vs : List Violation) :
    (if c then vs else []).map (Violation.lowered k) = if c then vs.map (Violation.lowered k) else [] := by
  split <;> rfl

section Parts

variable (k : Nat) (s : Subject)

theorem importFaults_padded (i : Import) :
    importFaults (s.padded k) (i.moved k) = (importFaults s i).map (Violation.lowered k) := by
  simp only [importFaults, Import.moved, Subject.rule_padded, Subject.faultAt_padded, List.map_append, List.map_map,
    map_lowered_guarded, List.map_cons, List.map_nil]
  rfl

theorem exportFaults_padded (e : Export) :
    exportFaults (s.padded k) (e.moved k) = (exportFaults s e).map (Violation.lowered k) := by
  simp only [exportFaults, Export.moved, Subject.rule_padded, Subject.faultAt_padded, List.map_append, List.map_map,
    map_lowered_guarded, List.map_cons, List.map_nil]
  rfl

theorem operationFaults_padded (o : Operation) :
    operationFaults (s.padded k) o = (operationFaults s o).map (Violation.lowered k) := by
  have hscans : o.patterns.flatMap (·.scan (s.padded k).text) =
      (o.patterns.flatMap (·.scan s.text)).map (Match.moved k) := by
    rw [List.map_flatMap]
    exact List.flatMap_congr fun p hp => scan_padded (o.startsInLine_of_mem_patterns p hp) k s.text
  rw [operationFaults, operationFaults, hscans, List.map_map, List.map_map]
  exact List.map_congr_left fun m _ => s.faultAt_padded k _ _ _ _

theorem containerStructure_padded :
    containerStructure (s.padded k) = (containerStructure s).map (Violation.lowered k) := by
  have hmentions := s.mentions_padded k
  rw [containerStructure, hmentions _ (by decide), hmentions _ (by decide), hmentions _ (by decide),
    containerStructure, List.map_append, map_lowered_guarded, map_lowered_guarded]
  rfl

theorem hookComplexity_padded : hookComplexity (s.padded k) = (hookComplexity s).map (Violation.lowered k) := by
  have hcount : ∀ {p : Pattern}, p.StartsInLine → (p.scan (s.padded k).text).length = (p.scan s.text).length := by
    intro p hp
    rw [Subject.text_padded, scan_padded hp, List.length_map]
  simp only [hookComplexity, hcount stateHook_startsInLine, hcount effectHook_startsInLine, Subject.settings_padded,
    Subject.fault_padded, List.map_append, map_lowered_guarded, List.map_cons, List.map_nil]

theorem logicFindings_padded : logicFindings (s.padded k) = (logicFindings s).map (Violation.lowered k) := by
  rw [logicFindings, logicFindings, Subject.text_padded, Logic.findings_padded, List.map_map, List.map_map]
  rfl

end Parts

/-- A check that finds in a padded text what it finds in the text, further down, if the rule does not limit the number
of lines. -/
def FollowsText (check : Check) : Prop :=
  ∀ (k : Nat) (s : Subject), s.rule.maxLines = none → check (s.padded k) = (check s).map (Violation.lowered k)

theorem followsText_size : FollowsText size := by
  intro k s h
  simp only [size, Subject.rule_padded, h, List.map_nil]

theorem followsText_imports : FollowsText imports := by
  intro k s _
  rw [imports, imports, List.map_flatMap, Subject.text_padded, Import.all_padded, List.flatMap_map]
  exact List.flatMap_congr fun i _ => importFaults_padded k s i

theorem followsText_operations : FollowsText operations := by
  intro k s _
  rw [operations, operations, List.map_flatMap]
  apply List.flatMap_congr
  intro target _
  cases Operation.ofTarget? target with
  | none => rfl
  | some o => exact operationFaults_padded k s o

theorem followsText_exports : FollowsText exports := by
  intro k s _
  rw [exports, exports, List.map_flatMap, Subject.text_padded, Export.all_padded, List.flatMap_map]
  exact List.flatMap_congr fun e _ => exportFaults_padded k s e

theorem followsText_unusedExports : FollowsText unusedExports := by
  intro k s _
  simp only [unusedExports, Subject.rule_padded, Subject.settings_padded, Subject.text_padded,
    Export.utilities_padded, map_lowered_guarded, List.map_map]
  rfl

theorem followsText_businessLogic : FollowsText businessLogic := by
  intro k s _
  have hexempt : (s.padded k).isExempt = s.isExempt := rfl
  simp only [businessLogic, Subject.rule_padded, hexempt, Subject.componentClass_padded, containerStructure_padded,
    logicFindings_padded, hookComplexity_padded]
  split
  · rfl
  · rw [List.map_append, map_lowered_guarded, map_lowered_guarded, List.map_append]

/-- Every check of a file follows its text. -/
theorem followsText_of_mem_ofFile : ∀ check ∈ ofFile, FollowsText check := by
  simp only [ofFile, List.forall_mem_cons]
  exact ⟨followsText_size, followsText_imports, followsText_operations, followsText_exports,
    followsText_unusedExports, followsText_businessLogic, by simp⟩

/-- **Empty lines in front of a file move its violations down** and change nothing else about them, under a rule that
does not limit the number of lines. -/
theorem ofFile_padded {s : Subject} (h : s.rule.maxLines = none) (k : Nat) :
    (ofFile.flatMap fun check => check (s.padded k)) =
      (ofFile.flatMap fun check => check s).map (Violation.lowered k) := by
  rw [List.map_flatMap]
  exact List.flatMap_congr fun check hcheck => followsText_of_mem_ofFile check hcheck k s h

/-- A presentation component that waits in its first line, without a submit handler near enough to excuse it. -/
def waitingComponent : Subject where
  settings := {}
  file := "components/Form.tsx"
  rule := { location := "/components/Form.tsx", role := .presentation }
  text := "await go()\n".toList

theorem ofFile_padded_waitingComponent : waitingComponent.rule.maxLines = none ∧
    (ofFile.flatMap fun check => check (waitingComponent.padded 60)) =
      [waitingComponent.faultAt 0 .businessLogic
        "Await operations should be in services or custom hooks. Found: \"await ...\""].map
        (Violation.lowered 60) := by
  have hfound : (ofFile.flatMap fun check => check waitingComponent) =
      [waitingComponent.faultAt 0 .businessLogic
        "Await operations should be in services or custom hooks. Found: \"await ...\""] := by
    decide +kernel
  have h : waitingComponent.rule.maxLines = none := rfl
  exact ⟨h, (ofFile_padded h 60).trans (congrArg _ hfound)⟩

end Check

end Conformance
