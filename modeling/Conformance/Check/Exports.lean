import Conformance.Check.Subject
import Conformance.Pattern.Scan
import Conformance.Wildcard

/-!
# Exports

Names are exported by declarations that start a line. Utility modules get a reminder for each exported declaration,
wherever it stands.
-/

namespace Conformance

open Pattern

/-- A name that a file exports, and where the line of its declaration starts. -/
structure Export where
  name : String
  offset : Nat
deriving DecidableEq, Repr

namespace Export

/-- The name that is declared; it is marked. -/
def declaredName : Pattern := mark (greedily 1 Text.isWord)

/-- An exported declaration at the start of a line. -/
def declaration : Pattern :=
  inOrder
    [lineStart, greedily 0 fun c => c == ' ' || c == '\t', text "export", blanks 1, optionalWord "default",
     optionalWord "async", oneOf (["const", "let", "var", "class", "function"].map text),
     greedily 1 fun c => Text.isBlank c || c == '*', declaredName]

/-- An exported declaration of a utility. -/
def utility : Pattern :=
  inOrder
    [wordEdge, text "export", blanks 1, optionalWord "async", oneOf (["const", "function", "class"].map text), blanks 1,
     declaredName]

/-- The export that a match declares. -/
def ofMatch (m : Match) : Export := ⟨String.ofList m.markedText, m.whole.start⟩

/-- The exports of a text, in order. -/
def all (content : List Char) : List Export := (declaration.scan content).map ofMatch

/-- The utilities that a text exports, in order. -/
def utilities (content : List Char) : List Export := (utility.scan content).map ofMatch

end Export

namespace Check

/-- What is wrong with one export: that its name is private, and each denied pattern that it matches. -/
def exportFaults (s : Subject) (e : Export) : List Violation :=
  let denied := s.rule.deniedExports.filter (Wildcard.accepts · e.name)
  (if e.name.toList.head? = some '_' then
    [s.faultAt e.offset .forbiddenExport ("Exporting private member: " ++ e.name)]
  else []) ++
  denied.map fun p =>
    s.faultAt e.offset .forbiddenExport ("Export '" ++ e.name ++ "' matches denied pattern '" ++ p ++ "'")

/-- No private or denied name is exported. -/
def exports : Check := fun s =>
  (Export.all s.text).flatMap (exportFaults s)

/-- Every utility that is exported might be unused. Uses in other files are not looked for. -/
def unusedExports : Check := fun s =>
  if Text.occursIn s.settings.utilitiesMarker ("/" ++ s.rule.location) then
    (Export.utilities s.text).map fun e =>
      s.fault .unusedExport
        ("Exported function '" ++ e.name ++ "' may be unused - verify it's imported elsewhere") .warning
  else []

end Check

end Conformance
