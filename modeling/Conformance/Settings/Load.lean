import Conformance.Disk
import Conformance.Log
import Conformance.Settings.Reading
import Conformance.Yaml.Scalar

/-!
# Settings from a file

Settings stand in a file that is named explicitly, or else in a file of a fixed name in the project root. A file that is
named has to exist and to be right. The other one may be missing; if it is wrong, a warning is given and the defaults
hold. In both cases some faults are not announced and stop the run: bytes that are not UTF-8, and numbers out of range.
-/

namespace Conformance.Settings

/-- The name of the file in the project root. -/
def fileName : String := "rubric.yml"

/-- What is wrong with the settings of a file. -/
inductive Fault where
  /-- The file has no value. -/
  | unreadable (cause : Yaml.Failure)
  /-- The value is no mapping. -/
  | notMapping
  /-- The entries give no settings. -/
  | entries (cause : EntryError)
deriving DecidableEq, Repr

/-- Why no settings can be loaded. -/
inductive LoadError where
  | notFound (path : String)
  | fault (path : String) (f : Fault)
  | access (e : AccessError)
deriving DecidableEq, Repr

/-- How a fault is told. -/
structure Fault.Wording where
  /-- If the file was named explicitly. -/
  error : String
  /-- If the defaults are used instead. -/
  warning : String

/-- The wording of a fault of the file at a path; none for the faults that are not announced. Of a file that cannot be
read only the path is told: what is wrong with its text, which stands behind the path and a colon, is left out. -/
def Fault.wording? (path : String) : Fault → Option Wording
  | unreadable .malformed =>
    some ⟨"cannot read " ++ path, "Failed to read " ++ path ++ ", using default settings"⟩
  | notMapping =>
    some ⟨path ++ ": top level must be a mapping", path ++ " is not a mapping, using default settings"⟩
  | entries (.limit .infinite) => none
  | entries (.limit cause) =>
    let told := "business_logic hook limits must be integers: " ++ cause.message
    some ⟨told, path ++ ": " ++ told ++ ", using default settings"⟩
  | _ => none

/-- The wording of the errors that are announced to the user. -/
def LoadError.message? : LoadError → Option String
  | notFound path => some ("config file not found: " ++ path)
  | fault path f => (f.wording? path).map (·.error)
  | access _ => none

/-- What is made of the bytes of a file: a value, or the cause why there is none. -/
abbrev Reader := List UInt8 → Except Yaml.Failure Value

/-- The reader of YAML files. -/
def Reader.yaml : Reader := fun bytes => Yaml.read (.ofBytes bytes)

/-- The settings that a document gives; the empty document gives the defaults. -/
def ofDocument : Except Yaml.Failure Value → Except Fault Settings
  | .error e => .error (.unreadable e)
  | .ok .null => .ok {}
  | .ok (.mapping entries) => (ofEntries entries).mapError .entries
  | .ok _ => .error .notMapping

/-- The settings of a file, and the log records of reading it. -/
def ofFile (read : Reader) (explicit : Bool) (path : String) (bytes : ByteArray) :
    Except LoadError (Settings × List LogRecord) :=
  match ofDocument (read bytes.data.toList) with
  | .ok s => .ok (s, [])
  | .error f =>
    match f.wording? path with
    | none => .error (.fault path f)
    | some w =>
      if explicit then .error (.fault path f) else .ok ({}, [⟨.warning, .settings, w.warning⟩])

/-- Where the settings for a project stand: at `explicit?` or in the project root. -/
def pathOf (root : Path) (explicit? : Option Path) : Path :=
  explicit?.getD (root.join ⟨.relative, [fileName]⟩)

/-- The settings for a project, from the file at `explicit?` or from the project root. -/
def loadBy (read : Reader) (d : Disk) (root : Path) (explicit? : Option Path) :
    Except LoadError (Settings × List LogRecord) :=
  let path := pathOf root explicit?
  match d.file? path with
  | .error e => .error (.access ⟨path, e⟩)
  | .ok none => if explicit?.isSome then .error (.notFound path.toString) else .ok ({}, [])
  | .ok (some bytes) => ofFile read explicit?.isSome path.toString bytes

/-- The settings for a project from a YAML file. -/
def load (d : Disk) (root : Path) (explicit? : Option Path) : Except LoadError (Settings × List LogRecord) :=
  loadBy .yaml d root explicit?

end Conformance.Settings
