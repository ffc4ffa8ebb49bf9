import Conformance.Value.Basic

/-!
# Values as text

A setting that should be a text may be given as any value, whose display is then taken: a text as it is, and any other
value by its literal, in which texts stand in quotes. Integers of too many digits have no literal.
-/

namespace Conformance.Value

/-- The names of the values that are not numbers. -/
def specialNames : Decimal.SpecialNames := ⟨"inf", "nan"⟩

/-- The most digits that an integer is shown with. -/
def mostShownDigits : Nat := 4300

mutual

/-- Whether a value has a literal: all its integers are short enough. Its depth does not matter. -/
def isShowable : Value → Bool
  | int n => n.natAbs < Nat.pow 10 mostShownDigits
  | list items => areShowable items
  | mapping entries => haveShowableParts entries
  | _ => true

/-- Whether all items of a list have literals. -/
def areShowable : List Value → Bool
  | [] => true
  | v :: vs => isShowable v && areShowable vs

/-- Whether all keys and values of a mapping have literals. -/
def haveShowableParts : List (Value × Value) → Bool
  | [] => true
  | (k, v) :: es => isShowable k && isShowable v && haveShowableParts es

end

mutual

/-- The literal of a value. -/
def literal : Value → String
  | null => "None"
  | bool b => if b then "True" else "False"
  | int n => toString n
  | float x => Decimal.floatText specialNames x
  | text s => Text.quoted s
  | brokenText points => Text.quotedPoints points
  | list items => "[" ++ String.intercalate ", " (literals items) ++ "]"
  | mapping entries => "\x7b" ++ String.intercalate ", " (entryLiterals entries) ++ "\x7d"

/-- The literals of the items of a list. -/
def literals : List Value → List String
  | [] => []
  | v :: vs => literal v :: literals vs

/-- The literals of the entries of a mapping. -/
def entryLiterals : List (Value × Value) → List String
  | [] => []
  | (k, v) :: es => (literal k ++ ": " ++ literal v) :: entryLiterals es

end

/-- The text of a value. -/
def display : Value → String
  | text s => s
  | brokenText points => String.ofList (Text.joinHalves points)
  | v => literal v

end Conformance.Value
