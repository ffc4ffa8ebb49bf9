import Conformance.Decimal.Notation
import Conformance.Text.Hexadecimal
import Mathlib.Data.List.Basic

/-!
# Numerals

An integer is written with a sign, if it is negative, and its decimal digits. Nothing else stands in its numeral
(`notMem_repr`), and the numeral tells the integer (`intOf_repr`). A floating-point number has a decimal point and an
exponent besides (`notMem_floatText`).

Hexadecimal numerals of four digits write the numbers of 16 bits (`hexadecimal_four`).
-/

namespace Conformance.Text

/-- The integer that a numeral writes. -/
def intOf : List Char → Int
  | '-' :: digits => -(Nat.ofDigitChars 10 digits 0 : Nat)
  | digits => (Nat.ofDigitChars 10 digits 0 : Nat)

theorem toList_repr_natCast (n : Nat) : (Int.repr n).toList = Nat.toDigits 10 n := by
  simp [Int.repr]

theorem toList_repr_negSucc (n : Nat) : (Int.repr (.negSucc n)).toList = '-' :: Nat.toDigits 10 (n + 1) := by
  simp [Int.repr]

theorem repr_ne_nil (n : Int) : n.repr.toList ≠ [] := by
  cases n with
  | ofNat n =>
    rw [Int.ofNat_eq_natCast, toList_repr_natCast]
    exact Nat.toDigits_ne_nil
  | negSucc n =>
    rw [toList_repr_negSucc]
    exact List.cons_ne_nil _ _

section NotMem

variable {c : Char} (hdigit : c.isDigit = false)
include hdigit

theorem notMem_toDigits (n : Nat) : c ∉ Nat.toDigits 10 n := by
  intro h
  rw [Nat.isDigit_of_mem_toDigits (by omega) (by omega) h] at hdigit
  cases hdigit

theorem notMem_repr (hsign : c ≠ '-') (n : Int) : c ∉ n.repr.toList := by
  cases n with
  | ofNat n =>
    rw [Int.ofNat_eq_natCast, toList_repr_natCast]
    exact notMem_toDigits hdigit n
  | negSucc n =>
    rw [toList_repr_negSucc, List.mem_cons, not_or]
    exact ⟨hsign, notMem_toDigits hdigit (n + 1)⟩

end NotMem

/-- **A numeral tells its integer.** -/
theorem intOf_repr (n : Int) : intOf n.repr.toList = n := by
  cases n with
  | ofNat n =>
    rw [Int.ofNat_eq_natCast, toList_repr_natCast, intOf.eq_2, Nat.ofDigitChars_ten_toDigits]
    rintro digits h
    exact notMem_toDigits (c := '-') (by decide) n (h ▸ List.mem_cons_self)
  | negSucc n =>
    rw [toList_repr_negSucc, intOf, Nat.ofDigitChars_ten_toDigits]
    rfl

theorem repr_inj {m n : Int} (h : m.repr.toList = n.repr.toList) : m = n := by
  rw [← intOf_repr m, h, intOf_repr]

theorem toString_nat_inj {m n : Nat} (h : toString m = toString n) : m = n :=
  Int.ofNat_inj.mp (repr_inj (congrArg String.toList h))

/-! ## Floating-point numbers -/

open Decimal

section NotMem

variable {c : Char} (hdigit : c.isDigit = false)
include hdigit

theorem ne_zero_of_not_isDigit : c ≠ '0' := by
  rintro rfl
  cases hdigit

theorem notMem_positional {digits : List Char} (hdigits : c ∉ digits) (hpoint : c ≠ '.') (point : Int) :
    c ∉ positional digits point := by
  have hzero := ne_zero_of_not_isDigit hdigit
  have htake : c ∉ digits.take point.toNat := fun h => hdigits (List.mem_of_mem_take h)
  have hdrop : c ∉ digits.drop point.toNat := fun h => hdigits (List.mem_of_mem_drop h)
  rw [positional]
  split_ifs <;> simp [*]

theorem notMem_scientific {digits : List Char} (hdigits : c ∉ digits) (hmark : c ∉ ['.', 'e', '+', '-'])
    (exponent : Int) : c ∉ scientific digits exponent := by
  have hzero := ne_zero_of_not_isDigit hdigit
  have hsize := notMem_toDigits hdigit exponent.natAbs
  have htake : c ∉ digits.take 1 := fun h => hdigits (List.mem_of_mem_take h)
  have hdrop : c ∉ digits.drop 1 := fun h => hdigits (List.mem_of_mem_drop h)
  simp only [List.mem_cons, List.not_mem_nil, or_false, not_or] at hmark
  rw [scientific]
  split_ifs <;> simp [-List.drop_one, *]

/-- **A floating-point number is written with digits, signs, a point and an exponent**, unless it is written by a
name. -/
theorem notMem_floatText {names : SpecialNames} (hmark : c ∉ ['.', 'e', '+', '-'])
    (hinfinity : c ∉ names.infinity.toList) (hname : c ∉ names.notANumber.toList) (x : Float) :
    c ∉ (floatText names x).toList := by
  have hchars (d : Scaled) : c ∉ d.chars := by
    have hzero := ne_zero_of_not_isDigit hdigit
    have hdigits := notMem_toDigits hdigit d.digits
    have hpoint : c ≠ '.' := fun heq => hmark (heq ▸ List.mem_cons_self)
    rw [Scaled.chars]
    split_ifs
    · simp [hzero, hpoint]
    · exact notMem_positional hdigit hdigits hpoint _
    · exact notMem_scientific hdigit hdigits hmark _
  have hsign : c ≠ '-' := by
    rintro rfl
    exact hmark (by decide)
  rw [floatText]
  split_ifs <;> simp [*]

end NotMem

theorem floatText_ne_nil {names : SpecialNames} (hinfinity : names.infinity.toList ≠ [])
    (hname : names.notANumber.toList ≠ []) (x : Float) : (floatText names x).toList ≠ [] := by
  have hchars (d : Scaled) : d.chars ≠ [] := by
    rw [Scaled.chars, positional, scientific]
    split_ifs <;> simp
  rw [floatText]
  split_ifs <;> simp [*]

/-! ## Hexadecimal numerals -/

/-- The last digit of a hexadecimal numeral. -/
theorem hexadecimal_add_two (width n : Nat) :
    hexadecimal (width + 2) n = hexadecimal (width + 1) (n / 16) ++ [(n % 16).digitChar] := by
  by_cases hn : n < 16
  · rw [hexadecimal, hexadecimal, Nat.toDigits_of_lt_base hn, Nat.div_eq_of_lt hn, Nat.mod_eq_of_lt hn,
      Nat.toDigits_of_lt_base (by omega)]
    simp [List.replicate_succ']
  · rw [hexadecimal, Nat.toDigits_of_base_le (by omega) (by omega), List.length_append, List.length_singleton,
      Nat.add_sub_add_right (width + 1) 1, ← List.append_assoc]
    rfl

theorem hexadecimal_one {n : Nat} (hn : n < 16) : hexadecimal 1 n = [n.digitChar] := by
  rw [hexadecimal, Nat.toDigits_of_lt_base hn]
  rfl

theorem hexadecimal_four {n : Nat} (hn : n < 0x10000) : hexadecimal 4 n =
    [(n / 16 / 16 / 16).digitChar, (n / 16 / 16 % 16).digitChar, (n / 16 % 16).digitChar, (n % 16).digitChar] := by
  rw [hexadecimal_add_two, hexadecimal_add_two, hexadecimal_add_two, hexadecimal_one (by omega)]
  rfl

theorem hexDigitValue?_digitChar {n : Nat} (hn : n < 16) : hexDigitValue? n.digitChar = some n := by
  have hall : ∀ k < 16, hexDigitValue? (Nat.digitChar k) = some k := by decide
  exact hall n hn

end Conformance.Text
