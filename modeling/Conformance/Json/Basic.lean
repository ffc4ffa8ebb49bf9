import Conformance.Decimal.Notation
import Conformance.Text.Hexadecimal

/-!
# JSON texts

Objects keep the order of their members. A text is compact, or it is indented by two blanks for each level with one
member or element on a line.
-/

namespace Conformance

inductive Json where
  | null
  | bool (b : Bool)
  | int (n : Int)
  | float (x : Float)
  | text (s : String)
  | array (elements : List Json)
  | object (members : List (String × Json))
deriving Inhabited

namespace Json

/-- How JSON texts are laid out. -/
structure Layout where
  /-- One member or element on a line. -/
  indented : Bool
  /-- Characters from 127 on are escaped, those beyond `U+FFFF` as surrogate pairs. -/
  ascii : Bool

/-- The escape of one 16-bit unit. -/
def unitEscape (n : Nat) : List Char := '\\' :: 'u' :: Text.hexadecimal 4 n

/-- One character of a string. -/
def charText (ascii : Bool) (c : Char) : List Char :=
  if c = '"' then ['\\', '"']
  else if c = '\\' then ['\\', '\\']
  else if c = '\n' then ['\\', 'n']
  else if c = '\r' then ['\\', 'r']
  else if c = '\t' then ['\\', 't']
  else if c = '\x0c' then ['\\', 'f']
  else if c = '\x08' then ['\\', 'b']
  else if c.toNat < 32 || ascii && 126 < c.toNat && c.toNat < 0x10000 then unitEscape c.toNat
  else if ascii && 126 < c.toNat then
    let n := c.toNat - 0x10000
    unitEscape (0xd800 + n / 0x400) ++ unitEscape (0xdc00 + n % 0x400)
  else [c]

/-- A string in double quotes. -/
def stringText (ascii : Bool) (s : String) : List Char :=
  '"' :: s.toList.flatMap (charText ascii) ++ ['"']

/-- The names of the values that JSON itself has no numbers for. -/
def specialNames : Decimal.SpecialNames := ⟨"Infinity", "NaN"⟩

/-- A new line at a depth, in an indented text. -/
def lineBreak (l : Layout) (depth : Nat) : List Char :=
  if l.indented then '\n' :: List.replicate (2 * depth) ' ' else []

/-- A key with its colon. -/
def keyText (l : Layout) (k : String) : List Char :=
  stringText l.ascii k ++ (if l.indented then [':', ' '] else [':'])

mutual

/-- The text of a value at a depth. -/
def chars (l : Layout) (depth : Nat) : Json → List Char
  | null => "null".toList
  | bool b => (if b then "true" else "false").toList
  | int n => (toString n).toList
  | float x => (Decimal.floatText specialNames x).toList
  | text s => stringText l.ascii s
  | array [] => ['[', ']']
  | array (x :: xs) =>
    '[' :: lineBreak l (depth + 1) ++ chars l (depth + 1) x ++ elementChars l (depth + 1) xs ++
      lineBreak l depth ++ [']']
  | object [] => ['{', '}']
  | object ((k, x) :: ms) =>
    '{' :: lineBreak l (depth + 1) ++ keyText l k ++ chars l (depth + 1) x ++ memberChars l (depth + 1) ms ++
      lineBreak l depth ++ ['}']

/-- The elements after the first, each behind a comma. -/
def elementChars (l : Layout) (depth : Nat) : List Json → List Char
  | [] => []
  | x :: xs => ',' :: lineBreak l depth ++ chars l depth x ++ elementChars l depth xs

/-- The members after the first, each behind a comma. -/
def memberChars (l : Layout) (depth : Nat) : List (String × Json) → List Char
  | [] => []
  | (k, x) :: ms => ',' :: lineBreak l depth ++ keyText l k ++ chars l depth x ++ memberChars l depth ms

end

/-- The text of a value. -/
def render (l : Layout) (j : Json) : String := String.ofList (chars l 0 j)

end Json

end Conformance
