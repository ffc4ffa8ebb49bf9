import Conformance.Project.RuleSearch
import Conformance.Project.Run
import Conformance.Report.Basic
import Conformance.Rule.Parser
import Conformance.Settings.Load

/-!
# Checking a project

The rule files of a project are read first, and what is wrong with them is noted and logged. Then the targets of all
rules are checked, whatever their files are like.
-/

namespace Conformance

/-- A rule file that was read. -/
structure RuleFile where
  /-- The file as it is shown in the project. -/
  name : String
  parsed : ParsedRule

namespace RuleFile

/-- The notes on a rule file. -/
def notes (f : RuleFile) : List Note :=
  f.parsed.diagnostics.map fun d => ⟨d.position.line, d.position.column, d.message⟩

/-- The warnings about a rule file. -/
def warnings (f : RuleFile) : List LogRecord :=
  f.notes.map fun n => ⟨.warning, .checking, f.name ++ ":" ++ n.text⟩

end RuleFile

namespace Project

/-- The entries of the folder at a path. -/
def entriesAt (d : Disk) (root : Path) : Except AccessError (List (String × Tree)) :=
  match d.get root with
  | .error e => .error ⟨root, e⟩
  | .ok (.file _) => .error ⟨root, .notFolder⟩
  | .ok (.folder entries) => .ok entries

/-- The rule files below a folder. -/
def ruleFiles (d : Disk) (root : Path) (search : RuleSearch) : Except AccessError (List FoundFile) :=
  (entriesAt d root).map search.find

/-- What is searched for under the settings. -/
def searchOf (s : Settings) : RuleSearch := ⟨s.ruleSuffix, s.ignoredFolders⟩

/-- A found file read as a rule file. -/
def readRule (root : Path) (f : FoundFile) : RuleFile :=
  ⟨Path.display root (root.join ⟨.relative, f.way⟩), ParsedRule.ofBytes f.bytes.data.toList⟩

/-- The record of how many rule files were found. -/
def countRecord (root : Path) (suffix : String) (count : Nat) : LogRecord :=
  ⟨.debug, .discovery,
    "Found " ++ toString count ++ " " ++ suffix ++ " files under " ++ root.toString⟩

/-- The notes on the rule files that have any. -/
def notesOf (files : List RuleFile) : List (String × List Note) :=
  (files.filter fun f => !f.notes.isEmpty).foldl (fun es f => Report.put f.name f.notes es) []

/-- The report of a project under given settings, or the error that stopped the run; the log records in both cases. -/
def check (d : Disk) (root : Path) (settings : Settings) : Except AccessError Report × List LogRecord :=
  match ruleFiles d root (searchOf settings) with
  | .error e => (.error e, [])
  | .ok found =>
    let files := found.map (readRule root)
    let checked := Run.checkRules d { root, settings } (files.map (·.parsed.rule))
    let log := countRecord root settings.ruleSuffix found.length :: files.flatMap (·.warnings) ++ checked.log
    match checked.error? with
    | some e => (.error e, log)
    | none =>
      (.ok
        { violations := checked.run.violations
          rulesEvaluated := files.length
          filesChecked := checked.run.checkedFiles
          notes := notesOf files }, log)

/-- The targets of all rules of a project, as far as they can be found. -/
def targets (d : Disk) (root : Path) (settings : Settings) : List Path :=
  match ruleFiles d root (searchOf settings) with
  | .error _ => []
  | .ok found => found.map fun f => root.join (Path.ofString (readRule root f).parsed.rule.location)

/-- Why a project cannot be checked. -/
inductive Failure where
  | settings (e : Settings.LoadError)
  | access (e : AccessError)
deriving DecidableEq, Repr

/-- The report of a project under the settings of a file, which is the one in the project root unless another is
given. -/
def load (d : Disk) (root : Path) (settingsFile? : Option Path) : Except Failure Report × List LogRecord :=
  match Settings.load d root settingsFile? with
  | .error e => (.error (.settings e), [])
  | .ok (settings, log) =>
    let (report, rest) := check d root settings
    (report.mapError .access, log ++ rest)

end Project

end Conformance
