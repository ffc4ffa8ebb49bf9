import Conformance.Path
import Conformance.Pattern.Scan
import Conformance.Text.Occurrence

/-!
# Searching for wildcard patterns

A pattern without a star is looked for as it stands. One with stars is cut at them, the pieces become texts to be found
literally, a gap within one line is put between each two of them, and the expression that results is searched for.
-/

namespace Conformance.Wildcard

/-- What a star becomes: as much of the line as possible. -/
def gap : Pattern := Pattern.greedily 0 (· != '\n')

/-- The expression made of some pieces, with gaps between them. -/
def expression (pieces : List (List Char)) : Pattern :=
  Pattern.inOrder ((pieces.map fun piece => Pattern.text (String.ofList piece)).intersperse gap)

/-- Whether a search for the pattern succeeds in a candidate. -/
def finds (pattern candidate : String) : Bool :=
  if pattern.toList.contains '*' then
    (expression (Path.splitAt '*' pattern.toList)).occursIn candidate.toList
  else Text.occursIn pattern candidate

end Conformance.Wildcard
