import Conformance.Decimal.Notation
import Conformance.Text.CodePoint
import Conformance.Text.Quoted

/-!
# Values of documents

Settings are read from documents made of scalars, lists and mappings. A mapping keeps the order in which its keys first
appear; writing a key again replaces its value. Numbers are the same key if they are equal or both not a number, and the
truth values count as 1 and 0 among them.

Dates, byte strings and sets, which a document may hold as well, are left out. Lists and mappings may be nested to any
depth, and comparing and showing them has no limit on it.
-/

namespace Conformance

inductive Value where
  | null
  | bool (b : Bool)
  | int (n : Int)
  | float (x : Float)
  | text (s : String)
  /-- A text with halves of surrogate pairs, by its code points. -/
  | brokenText (points : List Nat)
  | list (items : List Value)
  | mapping (entries : List (Value × Value))
deriving Inhabited

namespace Value

/-- Whether a float is exactly an integer. -/
def floatIs (x : Float) (n : Int) : Bool :=
  !x.isNaN && !x.isInf && x.floor == x && Decimal.truncate x == n

/-- The text of code points. -/
def ofPoints (points : List Nat) : Value :=
  match Text.ofPoints? points with
  | some s => text s
  | none => brokenText points

/-- Whether two scalars are the same key. -/
def sameKey : Value → Value → Bool
  | null, null => true
  | text a, text b => a == b
  | brokenText a, brokenText b => a == b
  | float x, float y => x == y || x.isNaN && y.isNaN
  | float x, v => (integer? v).any (floatIs x)
  | v, float x => (integer? v).any (floatIs x)
  | a, b => match integer? a, integer? b with
    | some m, some n => m == n
    | _, _ => false
where
  /-- The integer that a scalar is as a key. -/
  integer? : Value → Option Int
    | int n => some n
    | bool b => some (if b then 1 else 0)
    | _ => none

/-- Whether the value may be a key: every scalar may. -/
def isScalar : Value → Bool
  | list _ => false
  | mapping _ => false
  | _ => true

/-- The entries with a key's value replaced, or with a new entry at the end. -/
def put (key value : Value) : List (Value × Value) → List (Value × Value)
  | [] => [(key, value)]
  | (k, v) :: es => if sameKey k key then (k, value) :: es else (k, v) :: put key value es

/-- The value of a named entry. -/
def entry? (entries : List (Value × Value)) (name : String) : Option Value :=
  match entries with
  | [] => none
  | (text k, v) :: es => if k = name then some v else entry? es name
  | _ :: es => entry? es name

/-- The entries of a mapping; none for any other value. -/
def entries : Value → List (Value × Value)
  | mapping es => es
  | _ => []

end Value

end Conformance
