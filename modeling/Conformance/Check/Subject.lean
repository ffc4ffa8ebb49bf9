import Conformance.Rule.Basic
import Conformance.Settings.Basic
import Conformance.Text.Line
import Conformance.Violation

/-!
# What a check looks at

A check looks at the text of one file together with the rule for it, and lists the violations it finds.
-/

namespace Conformance

/-- A file to check. -/
structure Subject where
  settings : Settings
  /-- The file, as it is shown in the project. -/
  file : String
  rule : Rule
  text : List Char

/-- A check of one aspect of a file. -/
abbrev Check := Subject → List Violation

namespace Subject

/-- A violation of the whole file. -/
def fault (s : Subject) (category : Category) (message : String) (severity : Severity := .error) : Violation :=
  { file := s.file, moduleName := s.rule.moduleName, category, message, severity }

/-- A violation at the character with the given offset. -/
def faultAt (s : Subject) (offset : Nat) (category : Category) (message : String)
    (severity : Severity := .error) : Violation :=
  { s.fault category message severity with line := some (Text.lineAt s.text offset) }

/-- Whether the text of the file contains a word. -/
def mentions (s : Subject) (word : String) : Bool :=
  Text.occurs word.toList s.text

end Subject

end Conformance
