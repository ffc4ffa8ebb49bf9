import Conformance.Text.Hexadecimal
import Conformance.Text.Printable

/-!
# Text shown in quotes

Values and characters appear in messages between quotes. Single quotes are used unless the text holds a single quote
and no double one. The quote in use and the backslash are escaped, and every character that is not printable is
written as an escape, so that the shown text is one printable line.
-/

namespace Conformance.Text

/-- The quotation mark that shows `cs` with the fewest escapes; single on a tie. -/
def quoteFor (cs : List Char) : Char :=
  if cs.contains '\'' && !cs.contains '"' then '"' else '\''

/-- One character between quotation marks `q`. -/
def quotedChar (q c : Char) : List Char :=
  if c = q || c = '\\' then ['\\', c]
  else if c = '\n' then ['\\', 'n']
  else if c = '\t' then ['\\', 't']
  else if c = '\r' then ['\\', 'r']
  else if isPrintable c then [c]
  else if c.toNat < 0x100 then '\\' :: 'x' :: hexadecimal 2 c.toNat
  else if c.toNat < 0x10000 then '\\' :: 'u' :: hexadecimal 4 c.toNat
  else '\\' :: 'U' :: hexadecimal 8 c.toNat

/-- The text between quotes, on one printable line. -/
def quoted (s : String) : String :=
  let q := quoteFor s.toList
  String.ofList (q :: s.toList.flatMap (quotedChar q) ++ [q])

/-- One code point between quotation marks `q`; half of a surrogate pair is not printable. -/
def quotedPoint (q : Char) (n : Nat) : List Char :=
  if n.isValidChar then quotedChar q (Char.ofNat n) else '\\' :: 'u' :: hexadecimal 4 n

/-- Code points between quotes, on one printable line. -/
def quotedPoints (points : List Nat) : String :=
  let q := quoteFor (points.map Char.ofNat)
  String.ofList (q :: points.flatMap (quotedPoint q) ++ [q])

end Conformance.Text
