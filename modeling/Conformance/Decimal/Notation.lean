import Conformance.Decimal.Shortest

/-!
# The text of floating-point numbers

Numbers are written with the digits of their shortest decimal: positionally from 0.0001 on and below 10^16, and
otherwise with a signed exponent of at least two digits. A positional number always has a decimal point.
-/

namespace Conformance.Decimal

/-- The texts of the values that are not numbers. -/
structure SpecialNames where
  infinity : String
  notANumber : String

/-- Digits with the point after the first `point` of them, padded with zeros on both sides. -/
def positional (digits : List Char) (point : Int) : List Char :=
  if point ≤ 0 then '0' :: '.' :: List.replicate (-point).toNat '0' ++ digits
  else if digits.length ≤ point.toNat then
    digits ++ List.replicate (point.toNat - digits.length) '0' ++ ['.', '0']
  else digits.take point.toNat ++ '.' :: digits.drop point.toNat

/-- The first digit, the others after a point, and the exponent of the first. -/
def scientific (digits : List Char) (exponent : Int) : List Char :=
  let size := Nat.toDigits 10 exponent.natAbs
  let tail := digits.drop 1
  digits.take 1 ++ (if tail.isEmpty then [] else '.' :: tail) ++ 'e' :: (if exponent < 0 then '-' else '+') ::
    List.replicate (2 - size.length) '0' ++ size

/-- A decimal that is not negative. -/
def Scaled.chars (d : Scaled) : List Char :=
  let digits := Nat.toDigits 10 d.digits
  let point := d.exponent + digits.length
  if d.digits = 0 then ['0', '.', '0']
  else if -4 < point ∧ point ≤ 16 then positional digits point
  else scientific digits (point - 1)

/-- The text of a floating-point number. -/
def floatText (names : SpecialNames) (x : Float) : String :=
  let sign := if x.toBits ≥ 0x8000000000000000 then "-" else ""
  if x.isNaN then names.notANumber
  else if x.isInf then sign ++ names.infinity
  else sign ++ String.ofList (Binary.ofBits x.toBits).shortest.chars

/-- The whole part of a finite number, towards zero. -/
def truncate (x : Float) : Int :=
  let size : Int := (Binary.ofBits x.toBits).truncate
  if x < 0 then -size else size

end Conformance.Decimal
