/-!
# Code points

An escape may name half of a surrogate pair, which is a code point but no character. A text with such halves is a list
of numbers.
-/

namespace Conformance.Text

/-- The text of code points that all are characters. -/
def ofPoints? (points : List Nat) : Option String :=
  if points.all fun n => n.isValidChar then some (String.ofList (points.map Char.ofNat)) else none

/-- A code point as a character; `U+FFFD` stands for half of a pair. -/
def charOfPoint (n : Nat) : Char :=
  if n.isValidChar then Char.ofNat n else '\uFFFD'

/-- The first half of a surrogate pair. -/
def isHighHalf (n : Nat) : Bool := 0xD800 ≤ n && n < 0xDC00

/-- The second half of a surrogate pair. -/
def isLowHalf (n : Nat) : Bool := 0xDC00 ≤ n && n < 0xE000

/-- The characters of code points, pairs of halves joined. -/
def joinHalves : List Nat → List Char
  | [] => []
  | [n] => [charOfPoint n]
  | n :: m :: ns =>
    if isHighHalf n && isLowHalf m then
      Char.ofNat (0x10000 + (n - 0xD800) * 0x400 + (m - 0xDC00)) :: joinHalves ns
    else charOfPoint n :: joinHalves (m :: ns)

end Conformance.Text
