import Conformance.Decimal.Reading
import Conformance.Text.DecimalDigit
import Conformance.Text.Hexadecimal
import Conformance.Value.Basic
import Conformance.Yaml.Node

/-!
# The values of YAML texts

A scalar in quotes is a text. A plain scalar is null, a truth value or a number if it is spelled like one, and a text
otherwise. A value is built from outside to inside: of several failures the one counts that lies in the outermost
collection, and of those in collections of one depth the first.
-/

namespace Conformance.Yaml

def nullSpellings : List String := ["", "~", "null", "Null", "NULL"]

def trueSpellings : List String := ["yes", "Yes", "YES", "true", "True", "TRUE", "on", "On", "ON"]

def falseSpellings : List String := ["no", "No", "NO", "false", "False", "FALSE", "off", "Off", "OFF"]

def infinitySpellings : List String := [".inf", ".Inf", ".INF"]

def notANumberSpellings : List String := [".nan", ".NaN", ".NAN"]

/-- A number without its sign, and whether it is negative. -/
def splitSign : List Char → Bool × List Char
  | '-' :: cs => (true, cs)
  | '+' :: cs => (false, cs)
  | cs => (false, cs)

/-- The digits of a numeral, in which underscores may stand. -/
def withoutUnderscores (cs : List Char) : List Char := cs.filter (· != '_')

/-- The most digits of a decimal numeral. -/
def mostDecimalDigits : Nat := 4300

/-- The value of a numeral of digits of a base and underscores; none if it holds anything else. -/
def numeral? (base : Nat) (cs : List Char) : Option (Except Failure Nat) := do
  let digits ← (withoutUnderscores cs).mapM Text.hexDigitValue?
  if cs.isEmpty || !digits.all (· < base) then none
  else if digits.isEmpty || base = 10 && mostDecimalDigits < digits.length then some (.error .numeral)
  else some (.ok (Text.ofDigits base digits))

/-- The value of an integer without its sign: binary, hexadecimal, octal after a zero, or decimal. -/
def natural? : List Char → Option (Except Failure Nat)
  | ['0'] => some (.ok 0)
  | '0' :: 'b' :: cs => numeral? 2 cs
  | '0' :: 'x' :: cs => numeral? 16 cs
  | '0' :: cs => numeral? 8 ('0' :: cs)
  | c :: cs => if c.isDigit then numeral? 10 (c :: cs) else none
  | [] => none

/-- The value of an integer. -/
def integer? (cs : List Char) : Option (Except Failure Int) :=
  let (negative, digits) := splitSign cs
  (natural? digits).map (·.map fun n => if negative then -(n : Int) else n)

/-- The power of ten in an exponent, which needs a sign. -/
def exponent? : List Char → Option Int
  | [] => some 0
  | e :: sign :: cs =>
    if (e = 'e' || e = 'E') && (sign = '+' || sign = '-') && !cs.isEmpty && cs.all Char.isDigit then
      let n : Int := Text.decimalValue cs
      some (if sign = '-' then -n else n)
    else none
  | _ => none

/-- The value of a decimal number with a point and without its sign. -/
def decimal? (cs : List Char) : Option Float := do
  let isDigit (c : Char) : Bool := c.isDigit || c == '_'
  let whole := cs.takeWhile isDigit
  let '.' :: rest := cs.dropWhile isDigit | none
  let places := rest.takeWhile isDigit
  let power ← exponent? (rest.dropWhile isDigit)
  let starts (ds : List Char) : Bool := ds.head?.any Char.isDigit
  if starts whole || whole.isEmpty && starts places then
    let places := withoutUnderscores places
    let digits := withoutUnderscores whole ++ places
    some (Decimal.ofDigits digits (power - places.length))
  else none

/-- The value of a floating-point number. A number that starts with its point has no sign. -/
def float? (cs : List Char) : Option Float :=
  let (negative, digits) := splitSign cs
  let signed (x : Float) : Float := if negative then -x else x
  if infinitySpellings.contains (.ofList digits) then some (signed (1.0 / 0.0))
  else if notANumberSpellings.contains (.ofList cs) then some (0.0 / 0.0)
  else if digits.length < cs.length && digits.head? = some '.' then none
  else (decimal? digits).map signed

/-- The value of a plain scalar. Two marks stand for no value of their own. -/
def plainValue (s : String) : Except Failure Value :=
  let cs := s.toList
  if s = "<<" || s = "=" then .error .malformed
  else if nullSpellings.contains s then .ok .null
  else if trueSpellings.contains s then .ok (.bool true)
  else if falseSpellings.contains s then .ok (.bool false)
  else match integer? cs, float? cs with
    | some n, _ => n.map .int
    | none, some x => .ok (.float x)
    | none, none => .ok (.text s)

/-! ## Collections -/

/-- A failure in a collection at a depth. -/
structure DeepFailure where
  depth : Nat
  failure : Failure

/-- Both values, or the failure of the outer one; of equally deep failures the first. -/
def both (x : Except DeepFailure α) (y : Except DeepFailure β) : Except DeepFailure (α × β) :=
  match x, y with
  | .ok a, .ok b => .ok (a, b)
  | .ok _, .error e => .error e
  | .error e, .ok _ => .error e
  | .error e, .error f => .error (if f.depth < e.depth then f else e)

/-- The value of a key in a mapping at a depth. Keys are scalars; a lone equals sign is a text there. -/
def keyValue (depth : Nat) : Node → Except DeepFailure Value
  | .plain s => if s = "=" then .ok (.text s) else (plainValue s).mapError (⟨depth, ·⟩)
  | .quoted points => .ok (.ofPoints points)
  | _ => .error ⟨depth, .malformed⟩

mutual

/-- The value of a node in a collection at a depth. -/
def valueAt (depth : Nat) : Node → Except DeepFailure Value
  | .plain s => (plainValue s).mapError (⟨depth, ·⟩)
  | .quoted points => .ok (.ofPoints points)
  | .sequence items => (valuesAt (depth + 1) items).map .list
  | .mapping entries =>
    (entriesAt (depth + 1) entries).map fun es => .mapping (es.foldl (fun m (k, v) => Value.put k v m) [])

/-- The values of the items of a sequence at a depth. -/
def valuesAt (depth : Nat) : List Node → Except DeepFailure (List Value)
  | [] => .ok []
  | n :: ns => (both (valueAt depth n) (valuesAt depth ns)).map fun (v, vs) => v :: vs

/-- The keys and values of the entries of a mapping at a depth. -/
def entriesAt (depth : Nat) : List (Node × Node) → Except DeepFailure (List (Value × Value))
  | [] => .ok []
  | (k, n) :: es =>
    (both (both (keyValue depth k) (valueAt depth n)) (entriesAt depth es)).map fun (e, rest) => e :: rest

end

/-- The value of the root of a document. -/
def valueOf (root : Node) : Except Failure Value := (valueAt 0 root).mapError (·.failure)

/-- The value that a text writes; null if it is empty. -/
def read (text : Source) : Except Failure Value := do
  match ← Node.ofTokens (tokens text) with
  | none => return .null
  | some root => valueOf root

end Conformance.Yaml
