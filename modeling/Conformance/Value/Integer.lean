import Conformance.Text.Blank
import Conformance.Text.DecimalDigit
import Conformance.Value.Basic

/-!
# Values as integers

A number counts by its whole part, a truth value as 1 or 0, and a text if it writes a decimal integer: an optional sign
and digits of any script, between which single underscores may stand, with white space around.
-/

namespace Conformance.Value

/-- Why a value is no integer. -/
inductive NoInteger where
  | notANumber
  | infinite
  /-- A text that writes no integer, as it is shown in quotes. -/
  | malformed (shown : String)
  /-- A text of more digits than are read. -/
  | tooLong (digits : Nat)
  /-- Null, a list or a mapping. -/
  | wrongKind (name : String)
deriving DecidableEq, Repr

namespace NoInteger

/-- How many characters of a malformed text are shown, quotes included. -/
def shownLength : Nat := 200

/-- The most digits that are read. -/
def mostDigits : Nat := 4300

/-- The wording of a cause. -/
def message : NoInteger → String
  | notANumber => "cannot convert float NaN to integer"
  | infinite => "cannot convert float infinity to integer"
  | malformed shown =>
    "invalid literal for int() with base 10: " ++ String.ofList (shown.toList.take shownLength)
  | tooLong digits =>
    "Exceeds the limit (" ++ toString mostDigits ++ " digits) for integer string conversion: value has " ++
      toString digits ++ " digits; use sys.set_int_max_str_digits() to increase the limit"
  | wrongKind name =>
    "int() argument must be a string, a bytes-like object or a real number, not '" ++ name ++ "'"

end NoInteger

/-- White space that may stand around an integer; the ASCII separators may not. -/
def isPadding (c : Char) : Bool :=
  Text.isBlank c && !(28 ≤ c.toNat && c.toNat < 32)

/-- The values of digits between which single underscores may stand, and what follows the last of them. -/
def readDigits : List Char → List Nat × List Char
  | [] => ([], [])
  | [c] => match Text.digitValue? c with
    | some d => ([d], [])
    | none => ([], [c])
  | c :: u :: cs => match Text.digitValue? c with
    | some d =>
      if u = '_' && cs.head?.any Text.isDecimalDigit then
        let (ds, rest) := readDigits cs
        (d :: ds, rest)
      else
        let (ds, rest) := readDigits (u :: cs)
        (d :: ds, rest)
    | none => ([], c :: u :: cs)

/-- The integer that the characters of a text write; `shown` is the text in quotes. -/
def readInteger (shown : String) (cs : List Char) : Except NoInteger Int :=
  let cs := cs.dropWhile isPadding
  let negative := cs.head? == some '-'
  let cs := if negative || cs.head? == some '+' then cs.drop 1 else cs
  let (digits, rest) := readDigits cs
  if digits.isEmpty || rest.head? == some '_' then .error (.malformed shown)
  else if NoInteger.mostDigits < digits.length then .error (.tooLong digits.length)
  else if rest.all isPadding then
    let n : Int := Text.ofDigits 10 digits
    .ok (if negative then -n else n)
  else .error (.malformed shown)

/-- The integer that a value counts as. -/
def toInteger : Value → Except NoInteger Int
  | int n => .ok n
  | bool b => .ok (if b then 1 else 0)
  | float x => if x.isNaN then .error .notANumber else if x.isInf then .error .infinite else .ok (Decimal.truncate x)
  | text s => readInteger (Text.quoted s) s.toList
  | brokenText points => readInteger (Text.quotedPoints points) (points.map Text.charOfPoint)
  | null => .error (.wrongKind "NoneType")
  | list _ => .error (.wrongKind "list")
  | mapping _ => .error (.wrongKind "dict")

end Conformance.Value
