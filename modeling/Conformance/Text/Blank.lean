import Conformance.Text.Ranges

/-!
# White space

The white space of Unicode together with the four ASCII separators (28 to 31).
-/

namespace Conformance.Text

/-- All white-space code points. -/
def blankRanges : Ranges :=
  [(9, 13), (28, 32), (0x85, 0x85), (0xa0, 0xa0), (0x1680, 0x1680), (0x2000, 0x200a), (0x2028, 0x2029),
   (0x202f, 0x202f), (0x205f, 0x205f), (0x3000, 0x3000)]

/-- White space of any kind, line feeds included. -/
def isBlank (c : Char) : Bool :=
  blankRanges.has c.toNat

/-- The text without the white space at its two ends. -/
def trim (cs : List Char) : List Char :=
  ((cs.dropWhile isBlank).reverse.dropWhile isBlank).reverse

end Conformance.Text
