/-!
# Violations

A violation is a deviation of a file from its rule. Categories and severities are named; the names below are those that
the checks give, and reports show any others as they are.
-/

namespace Conformance

/-- How bad a violation is. -/
structure Severity where
  name : String
deriving DecidableEq, Repr

namespace Severity

/-- Fails a run. -/
def error : Severity := ⟨"error"⟩

/-- Fails strict runs only. -/
def warning : Severity := ⟨"warning"⟩

end Severity

/-- What kind of deviation a violation is. -/
structure Category where
  name : String
deriving DecidableEq, Repr

namespace Category

def missing : Category := ⟨"missing"⟩
def fileSize : Category := ⟨"file-size"⟩
def forbiddenImport : Category := ⟨"import"⟩
def operation : Category := ⟨"operation"⟩
def forbiddenExport : Category := ⟨"export"⟩
def unusedExport : Category := ⟨"unused-export"⟩
def businessLogic : Category := ⟨"business-logic"⟩
def pattern : Category := ⟨"pattern"⟩

/-- The categories that checks give. -/
def all : List Category :=
  [missing, fileSize, forbiddenImport, operation, forbiddenExport, unusedExport, businessLogic, pattern]

end Category

structure Violation where
  /-- The file, as it is shown in the project. -/
  file : String
  /-- The name that the rule gives to the module. -/
  moduleName : String
  category : Category
  message : String
  /-- The line, for what stands in one. -/
  line : Option Int := none
  severity : Severity := .error
deriving DecidableEq, Repr

namespace Violation

def isError (v : Violation) : Bool := v.severity = .error

def isWarning (v : Violation) : Bool := v.severity = .warning

end Violation

end Conformance
