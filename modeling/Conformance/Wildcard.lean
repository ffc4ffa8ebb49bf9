/-!
# Wildcard patterns

Rules name imports and exports by patterns. In a pattern `*` stands for any text within one line and every other
character for itself; a pattern matches a candidate if it matches some part of it.
-/

namespace Conformance.Wildcard

/-- Whether the text satisfies `k` after some characters of its first line are skipped. -/
def afterGap (k : List Char → Bool) : List Char → Bool
  | [] => k []
  | c :: cs => k (c :: cs) || c != '\n' && afterGap k cs

/-- Whether the pattern matches a beginning of the text. -/
def matchesStart : List Char → List Char → Bool
  | [], _ => true
  | p :: ps, text =>
    if p = '*' then afterGap (matchesStart ps) text
    else match text with
      | [] => false
      | c :: cs => p == c && matchesStart ps cs

/-- Whether the pattern matches some part of the text. -/
def matchesPart (pattern : List Char) : List Char → Bool
  | [] => matchesStart pattern []
  | c :: cs => matchesStart pattern (c :: cs) || matchesPart pattern cs

/-- Whether a candidate matches a pattern of a rule. -/
def accepts (pattern candidate : String) : Bool :=
  matchesPart pattern.toList candidate.toList

end Conformance.Wildcard
