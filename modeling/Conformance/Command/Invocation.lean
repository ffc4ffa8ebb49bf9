import Conformance.Command.Arguments
import Conformance.Log

/-!
# Command lines

A command line has options for the program, a command, and options and operands for that command. `check` checks a
project and `parse` shows what a rule file says. A request for help or for the version is answered before the other
options of its place are looked at, as long as all of them can be read.
-/

namespace Conformance

/-- How a report is written. -/
inductive Format where
  | rich
  | json
  | porcelain
deriving DecidableEq, Repr

namespace Format

def all : List Format := [rich, json, porcelain]

def name : Format → String
  | rich => "rich"
  | json => "json"
  | porcelain => "porcelain"

def ofName? (s : String) : Option Format := all.find? (·.name == s)

end Format

/-- What is asked of `check`. -/
structure CheckRequest where
  format : Format := .porcelain
  strict : Bool := false
  /-- The settings file, as it is typed. -/
  settings? : Option String := none
  /-- The project root, as it is typed. -/
  project? : Option String := none
deriving DecidableEq, Repr

/-- What is asked of the program. -/
inductive Request where
  | help
  | version
  | check (r : CheckRequest)
  /-- To show the rule of a file, as JSON or in lines. -/
  | parse (file : String) (json : Bool)
deriving DecidableEq, Repr

/-- A request and the least level of the log records that are shown. -/
structure Invocation where
  level : LogLevel
  request : Request
deriving DecidableEq, Repr

namespace Invocation

/-- The options of the program. -/
def programOptions : List OptionForm :=
  [⟨"--version", none, false⟩, ⟨"--verbose", some 'v', false⟩, ⟨"--quiet", some 'q', false⟩, ⟨"--help", none, false⟩]

/-- The options of `check`. -/
def checkOptions : List OptionForm :=
  [⟨"--format", none, true⟩, ⟨"--strict", none, false⟩, ⟨"--config", none, true⟩, ⟨"--project", none, true⟩,
   ⟨"--help", none, false⟩]

/-- The options of `parse`. -/
def parseOptions : List OptionForm := [⟨"--json", none, false⟩, ⟨"--help", none, false⟩]

/-- The level of the log records that are shown; being verbose wins over being quiet. -/
def levelOf (a : Arguments) : LogLevel :=
  if a.has "--verbose" then .debug else if a.has "--quiet" then .error else .warning

/-- The request that is answered before all else: the first of those for help and for the version. -/
def urgent? (a : Arguments) : Option Request :=
  a.options.findSome? fun o =>
    if o.1 = "--version" then some .version else if o.1 = "--help" then some .help else none

/-- The request of the arguments of `check`. -/
def ofCheck? (args : List String) : Option Request := do
  let a ← Arguments.read? checkOptions true args
  match urgent? a with
  | some r => return r
  | none =>
    let format ← match a.value? "--format" with
      | some name => Format.ofName? name
      | none => some .porcelain
    guard a.operands.isEmpty
    return .check ⟨format, a.has "--strict", a.value? "--config", a.value? "--project"⟩

/-- The request of the arguments of `parse`. -/
def ofParse? (args : List String) : Option Request := do
  let a ← Arguments.read? parseOptions true args
  match urgent? a, a.operands with
  | some r, _ => return r
  | none, [file] => return .parse file (a.has "--json")
  | none, _ => none

/-- The request for a word that is no command: options that were taken for a command are read again, and only an urgent
request among them is answered. -/
def ofUnknown? (args : List String) : Option Request :=
  (Arguments.read? programOptions false args).bind urgent?

/-- The request of a command and its arguments. -/
def ofCommand? : List String → Option Request
  | [] => none
  | "check" :: args => ofCheck? args
  | "parse" :: args => ofParse? args
  | args => ofUnknown? args

/-- What a command line asks for; none if it cannot be understood. -/
def ofArguments? (args : List String) : Option Invocation := do
  let a ← Arguments.read? programOptions false args
  let request ← (urgent? a).or (ofCommand? a.operands)
  return ⟨levelOf a, request⟩

end Invocation

end Conformance
