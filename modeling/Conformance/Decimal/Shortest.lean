/-!
# Shortest decimals

A finite floating-point number stands for the interval of reals that round to it. Its shortest decimal is, of the
decimals with the fewest digits in that interval, the one nearest to the number; a tie goes to the even digit. All
arithmetic is exact, on naturals.
-/

namespace Conformance.Decimal

/-- The value `mantissa · 2 ^ exponent`. -/
structure Binary where
  mantissa : Nat
  exponent : Int
  /-- The gap to the next value below is half the gap to the next value above. -/
  narrowBelow : Bool
deriving DecidableEq, Repr

/-- The finite number that 64 bits stand for, its sign left out. -/
def Binary.ofBits (bits : UInt64) : Binary :=
  let e : Nat := (bits.toNat / Nat.pow 2 52) % Nat.pow 2 11
  let f : Nat := bits.toNat % Nat.pow 2 52
  if e = 0 then ⟨f, -1074, false⟩ else ⟨Nat.pow 2 52 + f, (e : Int) - 1075, f == 0 && 1 < e⟩

/-- The value `digits · 10 ^ exponent`. -/
structure Scaled where
  digits : Nat
  exponent : Int
deriving DecidableEq, Repr

/-- How `a · 10 ^ i` compares with `n · 2 ^ j`. -/
def compareScaled (a : Nat) (i : Int) (n : Nat) (j : Int) : Ordering :=
  compare (a * Nat.pow 10 i.toNat * Nat.pow 2 (-j).toNat) (n * Nat.pow 2 j.toNat * Nat.pow 10 (-i).toNat)

namespace Binary

/-- Whether a decimal lies in the interval of the reals that round to the value: from halfway to the value below to
halfway to the value above, ends included iff the mantissa is even. -/
def readsBack (x : Binary) (d : Scaled) : Bool :=
  let low := if x.narrowBelow then 4 * x.mantissa - 1 else 4 * x.mantissa - 2
  let high := 4 * x.mantissa + 2
  let closed := x.mantissa % 2 == 0
  let fromLow := compareScaled d.digits d.exponent low (x.exponent - 2)
  let toHigh := compareScaled d.digits d.exponent high (x.exponent - 2)
  (fromLow == .gt || closed && fromLow == .eq) && (toHigh == .lt || closed && toHigh == .eq)

/-- The least `k` with the value below `10 ^ k`, for a value that is not zero. -/
def magnitude (x : Binary) : Int :=
  let estimate := (((x.mantissa.log2 : Int) + x.exponent) * 30103).fdiv 100000
  let candidates := (List.range 5).map fun (i : Nat) => estimate + i - 1
  (candidates.find? fun k => compareScaled 1 k x.mantissa x.exponent == .gt).getD estimate

/-- The value in units of `10 ^ g`, rounded down. -/
def floorAt (x : Binary) (g : Int) : Nat :=
  x.mantissa * Nat.pow 2 x.exponent.toNat * Nat.pow 10 (-g).toNat /
    (Nat.pow 2 (-x.exponent).toNat * Nat.pow 10 g.toNat)

/-- The nearest multiple of `10 ^ g` that reads back, if one of the two neighbours of the value does. -/
def nearestAt? (x : Binary) (g : Int) : Option Scaled :=
  let below : Scaled := ⟨x.floorAt g, g⟩
  let above : Scaled := ⟨x.floorAt g + 1, g⟩
  match x.readsBack below, x.readsBack above with
  | true, true =>
    some <| match compareScaled (below.digits + above.digits) g (2 * x.mantissa) x.exponent with
      | .lt => above
      | .gt => below
      | .eq => if below.digits % 2 = 0 then below else above
  | true, false => some below
  | false, true => some above
  | false, false => none

/-- The decimal without trailing zeros in its digits; `fuel` bounds their number. -/
def stripZeros : Nat → Scaled → Scaled
  | 0, d => d
  | fuel + 1, d =>
    if d.digits ≠ 0 ∧ d.digits % 10 = 0 then stripZeros fuel ⟨d.digits / 10, d.exponent + 1⟩ else d

/-- The shortest decimal of the value. Seventeen digits always suffice. -/
def shortest (x : Binary) : Scaled :=
  if x.mantissa = 0 then ⟨0, 0⟩
  else
    let k := x.magnitude
    let found := (List.range 17).findSome? fun (n : Nat) => x.nearestAt? (k - n - 1)
    stripZeros 20 (found.getD ⟨x.floorAt (k - 17), k - 17⟩)

/-- The whole part of the value. -/
def truncate (x : Binary) : Nat := x.floorAt 0

end Binary

end Conformance.Decimal
