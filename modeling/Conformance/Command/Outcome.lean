import Conformance.Command.Invocation
import Conformance.Command.Styling
import Conformance.Project.Check
import Conformance.Report.Console
import Conformance.Report.Porcelain
import Conformance.Report.Structured
import Conformance.Rule.Json

/-!
# Outcomes of command lines

A command line that cannot be understood, or that names a file or folder that is not there, is answered by the word on
usage alone. A project that cannot be checked is an error of its own, which is announced; some errors of settings files
are not, and end the program.
-/

namespace Conformance

inductive Outcome where
  /-- An exit with a code and what is written to the two outputs. -/
  | exit (code : Nat) (output errors : String)
  /-- The end of the program by an error that is not announced. -/
  | failure (e : Settings.LoadError)
deriving DecidableEq, Repr

namespace Outcome

/-- The version of the program. -/
def version : String := "0.3.0"

/-- The word on usage. -/
def usage : String := "Usage\n"

/-- A command line that is not understood. -/
def misuse : Outcome := .exit 2 "" usage

/-- A text as it is printed, without styling and with a line feed. -/
def printed (s : String) : String := String.ofList (Styling.remove s.toList) ++ "\n"

/-- What lies at a path as it is typed. The empty path names nothing, and a path that ends in a slash or in a dot names
folders only. -/
def typed? (d : Disk) (s : String) : Option Tree :=
  let last := (Path.splitAt '/' s.toList).getLast?
  match d.get (Path.ofString s) with
  | .error _ => none
  | .ok t =>
    match t with
    | .file _ => if last = some [] ∨ last = some ['.'] then none else some t
    | .folder _ => if s = "" then none else some t

/-- The bytes of a file at a path as it is typed. -/
def typedFile? (d : Disk) (s : String) : Option ByteArray :=
  match typed? d s with
  | some (.file bytes) => some bytes
  | _ => none

/-- Whether a path as it is typed names a folder. -/
def isFolder (d : Disk) (s : String) : Bool :=
  match typed? d s with
  | some (.folder _) => true
  | _ => false

/-- A report in a format, as it is printed. -/
def reportText (format : Format) (r : Report) : String :=
  let line (s : String) : String := if s = "" then "" else printed s
  match format with
  | .rich => r.consoleText
  | .json => line r.structured
  | .porcelain => line r.porcelain

/-- The announcement of an error. -/
def errorText (message : String) : String := printed ("Error: " ++ message)

/-- The announcement that a project cannot be searched. -/
def scanError (root : Path) (e : AccessError) : String :=
  errorText ("cannot scan " ++ root.toString ++ ": " ++ e.message)

/-- What is announced about settings that cannot be loaded. The line about an unreadable file stays open: the reason,
which belongs there, is not told. -/
def loadError? (root : Path) : Settings.LoadError → Option String
  | .access e => some (scanError root e)
  | .fault path (.unreadable .malformed) => some ("Error: cannot read " ++ path)
  | e => e.message?.map errorText

/-- The log records of at least a level, each on a line. -/
def logText (level : LogLevel) (log : List LogRecord) : String :=
  String.join ((LogRecord.atLeast level log).map (·.line ++ "\n"))

/-- The root of the project to check. -/
def projectRoot (d : Disk) (r : CheckRequest) : Path := d.resolve (Path.ofString (r.project?.getD "."))

/-- The files outside its arguments that a command line is about: the targets of the rules of its project. -/
def targets (d : Disk) (args : List String) : List Path :=
  match Invocation.ofArguments? args with
  | some ⟨_, .check r⟩ =>
    let root := projectRoot d r
    match Settings.load d root (r.settings?.map Path.ofString) with
    | .ok (settings, _) => Project.targets d root settings
    | .error _ => []
  | _ => []

/-- The outcome of checking a project; `elapsed` is the time to report. -/
def ofCheck (d : Disk) (level : LogLevel) (elapsed : Float) (r : CheckRequest) : Outcome :=
  let root := projectRoot d r
  let (result, log) := Project.load d root (r.settings?.map Path.ofString)
  let logged := logText level log
  match result with
  | .ok report =>
    .exit (report.exitCode r.strict) (reportText r.format { report with elapsed }) logged
  | .error (.access e) => .exit 2 "" (logged ++ scanError root e)
  | .error (.settings e) =>
    match loadError? root e with
    | some text => .exit 2 "" (logged ++ text)
    | none => .failure e

/-- The lines that show a rule. -/
def ruleLines (r : Rule) : List String :=
  let shown (s ifEmpty : String) : String := if s = "" then ifEmpty else s
  let listLine (label : String) (xs : List String) : List String :=
    if xs.isEmpty then [] else [label ++ ": " ++ String.intercalate ", " xs]
  ["Module: " ++ shown r.moduleName "(none)",
   "Location: " ++ shown r.location "(none, rule is inert)",
   "Component: " ++ if r.isComponent then r.role.name else "no"] ++
    listLine "Allowed imports" r.allowedImports ++ listLine "Denied imports" r.deniedImports ++
    listLine "Denied operations" r.deniedOperations ++ listLine "Denied exports" r.deniedExports ++
    match r.maxLines with
    | some n => ["Max lines: " ++ toString n]
    | none => []

/-- The outcome of showing the rule of a file. As JSON it comes with its problems; otherwise these are errors. -/
def ofParse (file : Path) (bytes : ByteArray) (json : Bool) : Outcome :=
  let parsed := ParsedRule.ofBytes bytes.data.toList
  if json then .exit 0 (printed parsed.structured) ""
  else
    let problems := parsed.diagnostics.map fun d => printed (file.toString ++ ":" ++ d.text)
    .exit 0 (String.join ((ruleLines parsed.rule).map printed)) (String.join problems)

/-- The outcome of a request. The files and folders that it names have to be there. -/
def ofInvocation (d : Disk) (elapsed : Float) (i : Invocation) : Outcome :=
  match i.request with
  | .help => .exit 0 usage ""
  | .version => .exit 0 (printed ("rubric, version " ++ version)) ""
  | .check r =>
    if r.settings?.all (fun s => (typedFile? d s).isSome) && r.project?.all (isFolder d) then
      ofCheck d i.level elapsed r
    else misuse
  | .parse file json =>
    match typedFile? d file with
    | some bytes => ofParse (Path.ofString file) bytes json
    | none => misuse

/-- The outcome of a command line. -/
def ofArguments (d : Disk) (elapsed : Float) (args : List String) : Outcome :=
  match Invocation.ofArguments? args with
  | some i => ofInvocation d elapsed i
  | none => misuse

end Outcome

end Conformance
