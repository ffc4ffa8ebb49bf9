import Conformance.Check.Subject
import Conformance.Pattern.Scan

/-!
# Denied operations

Each family of operations has a list of patterns; every match of one of them in the text is a use of the family.
-/

namespace Conformance

open Pattern

namespace Operation

/-- A name and an opening parenthesis, possibly after white space. -/
def call (name : String) : Pattern :=
  inOrder [text name, blanks 0, char (· == '(')]

/-- A member of an object. -/
def member (object : String) (names : List String) : Pattern :=
  inOrder [text object, char (· == '.'), oneOf (names.map text)]

/-- The patterns of a family. -/
def patterns : Operation → List Pattern
  | console => [member "console" ["log", "warn", "error", "info", "debug", "trace"]]
  | network => [call "fetch", text "axios.", text "XMLHttpRequest", call ".get", call ".post"]
  | localStorage => [member "localStorage" ["getItem", "setItem", "removeItem", "clear"]]

end Operation

namespace Check

/-- The uses of one family. -/
def operationFaults (s : Subject) (o : Operation) : List Violation :=
  (o.patterns.flatMap (·.scan s.text)).map fun m =>
    s.faultAt m.whole.start .operation
      ("Forbidden " ++ o.label ++ " operation: " ++ String.ofList m.whole.text)

/-- No denied operation is used. -/
def operations : Check := fun s =>
  s.rule.deniedOperations.flatMap fun target =>
    match Operation.ofTarget? target with
    | some o => operationFaults s o
    | none => []

end Check

end Conformance
