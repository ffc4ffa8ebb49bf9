/-!
# Letters without regard to case

Folding maps every character that some case mapping relates to an ASCII letter to that letter in lower case: besides
the capitals these are the long s, the Kelvin sign and the two letters i of Turkish. All other characters stay as they
are, so folded texts are for comparison with ASCII words only.
-/

namespace Conformance.Text

/-- The ASCII letter in lower case that `c` is a form of, or `c`. -/
def foldCase (c : Char) : Char :=
  if c.isUpper then c.toLower
  else if c = 'İ' || c = 'ı' then 'i'
  else if c = 'ſ' then 's'
  else if c = '\u212a' then 'k'
  else c

end Conformance.Text
