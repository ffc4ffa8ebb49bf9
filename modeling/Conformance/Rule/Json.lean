import Conformance.Json.Basic
import Conformance.Rule.Parser

/-!
# Rules as JSON
-/

namespace Conformance

namespace Rule

def toJson (r : Rule) : Json :=
  let texts (xs : List String) : Json := .array (xs.map .text)
  .object
    [("module_name", .text r.moduleName), ("location", .text r.location),
     ("allowed_imports", texts r.allowedImports), ("denied_imports", texts r.deniedImports),
     ("denied_operations", texts r.deniedOperations), ("denied_exports", texts r.deniedExports),
     ("file_constraints", .object [("max_lines", (r.maxLines.map Json.int).getD .null)]),
     ("is_component", .bool r.isComponent), ("component_type", .text r.role.name)]

end Rule

namespace Diagnostic

def toJson (d : Diagnostic) : Json :=
  .object
    [("line", .int d.position.line), ("column", .int d.position.column), ("message", .text d.message)]

end Diagnostic

/-- The text of a rule and its problems as JSON. Characters beyond ASCII stay as they are. -/
def ParsedRule.structured (p : ParsedRule) : String :=
  Json.render ⟨true, false⟩ (.object [("rule", p.rule.toJson), ("diagnostics", .array (p.diagnostics.map (·.toJson)))])

end Conformance
