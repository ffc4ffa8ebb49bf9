/-!
# UTF-8

A byte sequence is cut into well-formed characters and invalid pieces. An invalid piece is the longest beginning of a
character that the bytes still allow, at least one byte; reading with replacement puts `U+FFFD` for each.
-/

namespace Conformance.Text.Utf8

/-- The bytes that may follow a first byte, as one range for each following byte; `none` for a byte that starts no
character. -/
def continuation? (b : UInt8) : Option (List (UInt8 × UInt8)) :=
  let tail := (0x80, 0xBF)
  if b < 0x80 then some []
  else if b < 0xC2 then none
  else if b < 0xE0 then some [tail]
  else if b = 0xE0 then some [(0xA0, 0xBF), tail]
  else if b = 0xED then some [(0x80, 0x9F), tail]
  else if b < 0xF0 then some [tail, tail]
  else if b = 0xF0 then some [(0x90, 0xBF), tail, tail]
  else if b < 0xF4 then some [tail, tail, tail]
  else if b = 0xF4 then some [(0x80, 0x8F), tail, tail]
  else none

/-- How many of the bytes fit the ranges, one after the other. -/
def fitting : List (UInt8 × UInt8) → List UInt8 → Nat
  | (lo, hi) :: ranges, b :: bs => if lo ≤ b && b ≤ hi then fitting ranges bs + 1 else 0
  | _, _ => 0

/-- The bits that a first byte of a character of `n` further bytes contributes. -/
def leadBits (b : UInt8) : Nat → Nat
  | 0 => b.toNat
  | 1 => b.toNat % 0x20
  | 2 => b.toNat % 0x10
  | _ => b.toNat % 0x08

/-- The code point of a first byte and its following bytes. -/
def codePoint (b : UInt8) (bs : List UInt8) : Nat :=
  bs.foldl (fun n t => n * 0x40 + t.toNat % 0x40) (leadBits b bs.length)

/-- The first piece of `b :: bs`: its character, if it is well formed, and how many bytes after `b` belong to it. -/
def piece (b : UInt8) (bs : List UInt8) : Option Char × Nat :=
  match continuation? b with
  | none => (none, 0)
  | some ranges =>
    let n := fitting ranges bs
    (if n = ranges.length then some (Char.ofNat (codePoint b (bs.take n))) else none, n)

/-- The pieces of a byte sequence in order, each with its length. -/
def pieces : List UInt8 → List (Option Char × Nat)
  | [] => []
  | b :: bs =>
    let (c, n) := piece b bs
    (c, n + 1) :: pieces (bs.drop n)
termination_by bs => bs.length

/-- The text, with `U+FFFD` for every invalid piece. -/
def decode (bytes : List UInt8) : List Char :=
  (pieces bytes).map fun p => p.1.getD '\uFFFD'

/-- The offset of the first invalid piece. -/
def firstInvalid? (bytes : List UInt8) : Option Nat :=
  let ps := pieces bytes
  let valid := ps.takeWhile fun p => p.1.isSome
  if valid.length = ps.length then none else some (valid.foldl (fun n p => n + p.2) 0)

end Conformance.Text.Utf8

namespace Conformance.Text

/-- The text with each of the three line ends, carriage return with or without a line feed after it included, written
as one line feed. -/
def unifyLineEnds : List Char → List Char
  | '\r' :: '\n' :: cs => '\n' :: unifyLineEnds cs
  | '\r' :: cs => '\n' :: unifyLineEnds cs
  | c :: cs => c :: unifyLineEnds cs
  | [] => []

end Conformance.Text
