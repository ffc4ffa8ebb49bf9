import Conformance.Rule.Statement
import Conformance.Text.Utf8

/-!
# Reading rules

The statements of a text are added to an empty rule one after the other: the first module name, location and line
limit count, lists collect every value once in order of appearance, and a presentation mark stays.
-/

namespace Conformance

/-- The list with `x` at its end, unless it is a member already. -/
def insertNew {α : Type} [BEq α] (xs : List α) (x : α) : List α :=
  if xs.contains x then xs else xs ++ [x]

/-- The rule with one more statement. -/
def Rule.add (r : Rule) : Statement → Rule
  | .moduleName name => if r.moduleName = "" then { r with moduleName := name } else r
  | .location path => if r.location = "" then { r with location := path } else r
  | .allowImport p => { r with allowedImports := insertNew r.allowedImports p }
  | .denyImports ps => { r with deniedImports := ps.foldl insertNew r.deniedImports }
  | .denyExports ps => { r with deniedExports := ps.foldl insertNew r.deniedExports }
  | .denyOperation target => { r with deniedOperations := insertNew r.deniedOperations target }
  | .limitLines most => if r.maxLines.isNone then { r with maxLines := some most } else r
  | .markPresentation => { r with role := .presentation }

/-- A rule read from a text, and the problems of the text by position. -/
structure ParsedRule where
  rule : Rule
  diagnostics : List Diagnostic
deriving DecidableEq, Repr

namespace ParsedRule

/-- Diagnostics in the order of their positions; those at one position keep their order. -/
def byPosition (ds : List Diagnostic) : List Diagnostic := ds.mergeSort Diagnostic.le

/-- The rule that a text writes. -/
def ofText (text : List Char) : ParsedRule :=
  let readings := Statement.readings (Token.ofText text)
  { rule := (readings.filterMap (·.statement?)).foldl Rule.add {}
    diagnostics := byPosition (Token.diagnosticsOfText text ++ readings.flatMap (·.problems)) }

/-- Where the byte at `offset` stands; the column counts bytes. -/
def bytePosition (bytes : List UInt8) (offset : Nat) : Text.Position :=
  let before := bytes.take offset
  ⟨before.count 10 + 1, (before.reverse.takeWhile (· != 10)).length + 1⟩

/-- The rule that a file holds. Bytes that are not UTF-8 are replaced, and the first of them is reported. -/
def ofBytes (bytes : List UInt8) : ParsedRule :=
  let parsed := ofText (Text.Utf8.decode bytes)
  match Text.Utf8.firstInvalid? bytes with
  | none => parsed
  | some offset =>
    { parsed with
      diagnostics := byPosition (parsed.diagnostics ++ [⟨bytePosition bytes offset, .invalidBytes⟩]) }

end ParsedRule

namespace Rule

/-- The rule that a text writes, whatever problems the text has. -/
def ofText (text : List Char) : Rule := (ParsedRule.ofText text).rule

end Rule

end Conformance
