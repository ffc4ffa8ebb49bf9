import Conformance.Check.BusinessLogic
import Conformance.Check.Exports
import Conformance.Check.Imports
import Conformance.Check.Operations
import Conformance.Check.Size
import Conformance.Disk
import Conformance.Path
import Conformance.Text.Utf8

/-!
# Runs

A run checks the targets of rules, one after the other. What a rule finds is added at the end of what was found before,
on which it does not depend. A target that is no file is a violation itself; a target whose path cannot be used at all
stops the run, with everything kept that was found before.
-/

namespace Conformance

/-- The checks of a file in the order in which they are made. -/
def Check.ofFile : List Check :=
  [Check.size, Check.imports, Check.operations, Check.exports, Check.unusedExports, Check.businessLogic]

/-- What a run has found so far. -/
structure Run where
  /-- The root of the project. -/
  root : Path
  settings : Settings := {}
  violations : List Violation := []
  /-- How many targets were files. -/
  checkedFiles : Nat := 0
deriving DecidableEq, Repr

namespace Run

/-- The run with more violations. -/
def add (r : Run) (vs : List Violation) : Run := { r with violations := r.violations ++ vs }

/-- A target as the subject of checks. -/
def subject (r : Run) (target : Path) (rule : Rule) (bytes : ByteArray) : Subject where
  settings := r.settings
  file := Path.display r.root target
  rule := rule
  text := Text.unifyLineEnds (Text.Utf8.decode bytes.data.toList)

/-- The violation of a rule without a file to check. -/
def missing (r : Run) (target : Path) (rule : Rule) : Violation where
  file := Path.display r.root target
  moduleName := rule.moduleName
  category := .missing
  message := "File specified in .rux does not exist"

/-- The run after a check of one target, and the log records of the check. -/
def checkFile (d : Disk) (r : Run) (target : Path) (rule : Rule) : Except AccessError (Run × List LogRecord) :=
  match d.file? target with
  | .error e => .error ⟨target, e⟩
  | .ok none => .ok (r.add [r.missing target rule], [])
  | .ok (some bytes) =>
    let s := r.subject target rule bytes
    .ok
      ({ r.add (Check.ofFile.flatMap fun check => check s) with checkedFiles := r.checkedFiles + 1 },
       Check.businessLogicLog s)

/-- The target of a rule. -/
def target (r : Run) (rule : Rule) : Path := r.root.join (Path.ofString rule.location)

/-- What the check of a rule is announced by. -/
def announcement (rule : Rule) : LogRecord :=
  let name := if rule.moduleName = "" then "<unnamed>" else rule.moduleName
  ⟨.debug, .checking, "Checking " ++ name ++ " -> " ++ rule.location⟩

/-- A run after the check of rules, with the log records of the checks and the error that stopped them, if one did. -/
structure Checked where
  run : Run
  log : List LogRecord := []
  error? : Option AccessError := none

/-- The run after the check of the targets of all rules that have one. -/
def checkRules (d : Disk) (r : Run) : List Rule → Checked
  | [] => ⟨r, [], none⟩
  | rule :: rules =>
    if rule.isInert then checkRules d r rules
    else match r.checkFile d (r.target rule) rule with
      | .error e => ⟨r, [announcement rule], some e⟩
      | .ok (next, log) =>
        let rest := checkRules d next rules
        { rest with log := announcement rule :: log ++ rest.log }

end Run

end Conformance
