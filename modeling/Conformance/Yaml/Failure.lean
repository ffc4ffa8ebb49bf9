/-!
# Texts without a value
-/

namespace Conformance.Yaml

/-- Why a text has no value. -/
inductive Failure where
  /-- The bytes are not UTF-8. -/
  | invalidBytes
  /-- The text is not well formed or holds a character that may not appear. -/
  | malformed
  /-- The number in an escape is greater than every code point. -/
  | noCodePoint
  /-- The number in an escape has more than 31 bits. -/
  | escapeOverflow
  /-- Collections are nested too deep. -/
  | tooDeep
  /-- A scalar is spelled like an integer that has no digits, or too many of them. -/
  | numeral
deriving DecidableEq, Repr

end Conformance.Yaml
