import Conformance.Settings.Load

/-!
# Settings from a file, case by case

The two ways of loading settings are told apart here, each with the texts that it gives: a file that is named is refused
with a message if it is missing or wrong (`loadNamed`), and for the file in the project root the defaults hold then,
with a warning unless it is missing (`loadUnnamed`).
-/

namespace Conformance.Settings

/-- Why a named file gives no settings. -/
inductive Refusal where
  /-- The message for the user. -/
  | told (message : String)
  /-- An error that no message announces. -/
  | silent (e : LoadError)
deriving DecidableEq, Repr

/-- The settings of the document in a file that was named. -/
def ofNamedDocument (path : String) : Except Yaml.Failure Value → Except Refusal Settings
  | .error .malformed => .error (.told ("cannot read " ++ path))
  | .error e => .error (.silent (.fault path (.unreadable e)))
  | .ok .null => .ok {}
  | .ok (.mapping entries) =>
    match ofEntries entries with
    | .ok s => .ok s
    | .error (.limit .infinite) => .error (.silent (.fault path (.entries (.limit .infinite))))
    | .error (.limit cause) => .error (.told ("business_logic hook limits must be integers: " ++ cause.message))
    | .error .noDisplay => .error (.silent (.fault path (.entries .noDisplay)))
  | .ok _ => .error (.told (path ++ ": top level must be a mapping"))

/-- The settings of the document in the project root, or the defaults and a warning. -/
def ofUnnamedDocument (path : String) : Except Yaml.Failure Value → Except LoadError (Settings × List LogRecord)
  | .error .malformed => .ok ({}, [⟨.warning, .settings, "Failed to read " ++ path ++ ", using default settings"⟩])
  | .error e => .error (.fault path (.unreadable e))
  | .ok .null => .ok ({}, [])
  | .ok (.mapping entries) =>
    match ofEntries entries with
    | .ok s => .ok (s, [])
    | .error (.limit .infinite) => .error (.fault path (.entries (.limit .infinite)))
    | .error (.limit cause) =>
      let told := "business_logic hook limits must be integers: " ++ cause.message
      .ok ({}, [⟨.warning, .settings, path ++ ": " ++ told ++ ", using default settings"⟩])
    | .error .noDisplay => .error (.fault path (.entries .noDisplay))
  | .ok _ => .ok ({}, [⟨.warning, .settings, path ++ " is not a mapping, using default settings"⟩])

/-- The settings of a file that was named. -/
def loadNamed (read : Reader) (d : Disk) (path : Path) : Except Refusal Settings :=
  match d.file? path with
  | .error e => .error (.silent (.access ⟨path, e⟩))
  | .ok none => .error (.told ("config file not found: " ++ path.toString))
  | .ok (some bytes) => ofNamedDocument path.toString (read bytes.data.toList)

/-- The settings of the file in the project root, which need not be there. -/
def loadUnnamed (read : Reader) (d : Disk) (root : Path) : Except LoadError (Settings × List LogRecord) :=
  let path := root.join ⟨.relative, [fileName]⟩
  match d.file? path with
  | .error e => .error (.access ⟨path, e⟩)
  | .ok none => .ok ({}, [])
  | .ok (some bytes) => ofUnnamedDocument path.toString (read bytes.data.toList)

end Conformance.Settings
