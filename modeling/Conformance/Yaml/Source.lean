import Conformance.Text.Arrival
import Conformance.Yaml.Failure

/-!
# The sources of YAML texts

A text comes from a file in portions. A portion fails if its bytes are not UTF-8 or if one of its characters may not
appear, and the text breaks off before it. That is met only by who reads so far.
-/

namespace Conformance.Yaml

/-- Whether a character may appear in a YAML text. -/
def isReadable (c : Char) : Bool :=
  let n := c.toNat
  n = 0x9 || n = 0xA || n = 0xD || (0x20 ≤ n && n ≤ 0x7E) || n = 0x85 || (0xA0 ≤ n && n ≤ 0xD7FF) ||
    (0xE000 ≤ n && n ≤ 0xFFFD) || 0x10000 ≤ n

/-- A text as far as it can be read. -/
structure Source where
  readable : List Char
  /-- Why the text breaks off, if it does. -/
  broken? : Option Failure := none
deriving Repr

/-- The source that a file of these bytes is. -/
def Source.ofBytes (bytes : List UInt8) : Source :=
  let coming := Text.arrivals 0 (Text.Utf8.pieces bytes)
  let text := coming.map (·.char)
  let unreadable? := (text.findIdx? fun c => !isReadable c).map Text.handedOver
  let invalid? := (Text.invalidAfter? bytes).map fun limit =>
    Text.handedOver (Text.knownBefore bytes.length limit 0 0 0 0 coming)
  match unreadable?, invalid? with
  | none, none => ⟨text, none⟩
  | some n, none => ⟨text.take n, some .malformed⟩
  | none, some m => ⟨text.take m, some .invalidBytes⟩
  | some n, some m => if n < m then ⟨text.take n, some .malformed⟩ else ⟨text.take m, some .invalidBytes⟩

end Conformance.Yaml
