import Conformance.Check.Subject
import Conformance.Pattern.Scan
import Conformance.Wildcard

/-!
# Imports

Import statements and exports from other modules name the modules that a file depends on. They are recognised by their
shape, wherever they stand in the text.
-/

namespace Conformance

open Pattern

/-- A module that a file imports: its path and where the statement starts. -/
structure Import where
  path : String
  offset : Nat
deriving DecidableEq, Repr

namespace Import

/-- Either quotation mark. -/
def isQuote (c : Char) : Bool := c == '\'' || c == '"'

/-- A path in quotes on one line; the path is marked. -/
def quotedPath : Pattern :=
  inOrder [char isQuote, mark (greedily 1 fun c => !isQuote c && c != '\n'), char isQuote]

/-- Characters between `import` and `from`: names, braces, commas, stars and white space. -/
def isClauseChar (c : Char) : Bool :=
  Text.isWord c || Text.isBlank c || c == '$' || c == '*' || c == '\x7b' || c == '\x7d' || c == ','

/-- An import statement, with or without names. -/
def statement : Pattern :=
  inOrder
    [wordEdge, text "import", blanks 1, optionalWord "type",
     optional (inOrder [lazily 1 isClauseChar, blanks 1, text "from", blanks 1]), quotedPath]

/-- An export of names from another module, all or those in braces. -/
def reexport : Pattern :=
  inOrder
    [wordEdge, text "export", blanks 1, optionalWord "type",
     alt (char (· == '*')) (inOrder [char (· == '\x7b'), greedily 0 (· != '\x7d'), char (· == '\x7d')]),
     optional (inOrder [blanks 1, text "as", blanks 1, greedily 1 Text.isWord]), blanks 1, text "from", blanks 1,
     quotedPath]

/-- The import that a match of one of the patterns states. -/
def ofMatch (m : Match) : Import := ⟨String.ofList m.markedText, m.whole.start⟩

/-- The imports of a text, in order. -/
def all (content : List Char) : List Import :=
  ((statement.scan content ++ reexport.scan content).map ofMatch).mergeSort fun a b => a.offset ≤ b.offset

end Import

namespace Check

/-- What is wrong with one import: each denied pattern that it matches, and that it matches no allowed one. -/
def importFaults (s : Subject) (i : Import) : List Violation :=
  let denied := s.rule.deniedImports.filter (Wildcard.accepts · i.path)
  let allowed := s.rule.allowedImports
  denied.map (fun p =>
    s.faultAt i.offset .forbiddenImport
      ("Forbidden import '" ++ i.path ++ "' matches pattern '" ++ p ++ "'")) ++
  if allowed != [] && !allowed.any (Wildcard.accepts · i.path) then
    [s.faultAt i.offset .forbiddenImport ("Import '" ++ i.path ++ "' is not in allowed list")]
  else []

/-- Every import is allowed and none is denied. -/
def imports : Check := fun s =>
  (Import.all s.text).flatMap (importFaults s)

end Check

end Conformance
