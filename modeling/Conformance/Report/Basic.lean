import Conformance.Violation

/-!
# Reports

A report holds what a run found in a project: the violations in the order in which they were found, the problems of the
rule files, and how many rules and files there were. A run passes if no violation is an error; a strict run must not
have warnings either.
-/

namespace Conformance

/-- A remark on a place in a rule file. -/
structure Note where
  line : Int
  column : Int
  message : String
deriving DecidableEq, Repr

/-- A note as one line, its place first. -/
def Note.text (n : Note) : String :=
  toString n.line ++ ":" ++ toString n.column ++ ": " ++ n.message

structure Report where
  violations : List Violation := []
  /-- How many rule files there are. -/
  rulesEvaluated : Nat := 0
  /-- How many targets were there to be checked. -/
  filesChecked : Nat := 0
  /-- The notes on each rule file that has any, by the file as it is shown in the project. -/
  notes : List (String × List Note) := []
  /-- How long the run took, in milliseconds. -/
  elapsed : Float := 0

namespace Report

/-- The entries with the value of a key replaced where it stands, or added at the end. -/
def put {α : Type} (key : String) (value : α) : List (String × α) → List (String × α)
  | [] => [(key, value)]
  | (k, v) :: es => if k = key then (key, value) :: es else (k, v) :: put key value es

def errors (r : Report) : List Violation := r.violations.filter (·.isError)

def warnings (r : Report) : List Violation := r.violations.filter (·.isWarning)

/-- No violation is an error. -/
def passed (r : Report) : Bool := r.errors.isEmpty

/-- The exit code of a run: 1 if it fails. -/
def exitCode (r : Report) (strict : Bool) : Nat :=
  if !r.errors.isEmpty then 1 else if strict && !r.warnings.isEmpty then 1 else 0

/-- Groups with a violation added to that of its file, which is new at the end if it is not there yet. -/
def addToGroup (v : Violation) : List (String × List Violation) → List (String × List Violation)
  | [] => [(v.file, [v])]
  | (file, vs) :: groups =>
    if file = v.file then (file, vs ++ [v]) :: groups else (file, vs) :: addToGroup v groups

/-- The violations by file, the files in the order in which they first appear. -/
def byFile (violations : List Violation) : List (String × List Violation) :=
  violations.foldl (fun groups v => addToGroup v groups) []

end Report

end Conformance
