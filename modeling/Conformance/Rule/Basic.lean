import Conformance.Text.Occurrence

/-!
# Rules

A rule constrains one source file, its target: which modules the file may import, which operations it may use, which
names it may export and how long it may be. A rule without a location has no target and takes part in no check.
-/

namespace Conformance

/-- The part that a component plays. Checks give a meaning to `presentation` and `container` only. -/
structure Role where
  name : String
deriving DecidableEq, Repr

namespace Role

/-- A component that renders what it is given. -/
def presentation : Role := ⟨"presentation"⟩

/-- A component that holds others and connects them to the rest of the program. -/
def container : Role := ⟨"container"⟩

end Role

/-- The families of operations that a rule can deny. -/
inductive Operation where
  | console
  | network
  | localStorage
deriving DecidableEq, Repr

namespace Operation

def all : List Operation := [console, network, localStorage]

/-- The family's name in messages. -/
def label : Operation → String
  | console => "console"
  | network => "network"
  | localStorage => "localStorage"

/-- How a rule writes the family. -/
def target (o : Operation) : String := "io." ++ o.label ++ ".*"

/-- The family that a rule writes so. -/
def ofTarget? (s : String) : Option Operation :=
  all.find? (·.target == s)

end Operation

structure Rule where
  moduleName : String := ""
  /-- Path of the target, usually relative to the project root. -/
  location : String := ""
  /-- Patterns of which every import has to match one, unless the list is empty. -/
  allowedImports : List String := []
  /-- Patterns that no import may match. -/
  deniedImports : List String := []
  /-- Operations that the target may not use; what names no family has no effect. -/
  deniedOperations : List String := []
  /-- Patterns that no exported name may match. -/
  deniedExports : List String := []
  /-- The greatest number of lines allowed. -/
  maxLines : Option Int := none
  role : Role := .container
deriving DecidableEq, Repr

namespace Rule

/-- Whether a location is that of a component: a file of a component kind below a folder `components`. -/
def isComponentLocation (location : String) : Bool :=
  Text.occursIn "/components/" location &&
    (".tsx".toList.isSuffixOf location.toList || ".jsx".toList.isSuffixOf location.toList)

/-- Whether the target is a component. -/
def isComponent (r : Rule) : Bool := isComponentLocation r.location

/-- Whether the rule has no target. -/
def isInert (r : Rule) : Bool := r.location == ""

end Rule

end Conformance
