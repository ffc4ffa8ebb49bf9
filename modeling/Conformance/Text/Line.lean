/-!
# Lines of a text

Only the line feed ends a line. Line numbers start at 1, and a last line that no line feed ends is counted too.
-/

namespace Conformance.Text

/-- How many line feeds a text holds. -/
def lineFeeds (text : List Char) : Nat :=
  text.count '\n'

/-- The number of the line in which the character at `offset` stands. -/
def lineAt (text : List Char) (offset : Nat) : Nat :=
  lineFeeds (text.take offset) + 1

/-- An offset that may be counted from the end: `-1` is the last character, and what lies before the start of the
text is its start. -/
def absoluteOffset (text : List Char) (offset : Int) : Nat :=
  if offset < 0 then (offset + text.length).toNat else offset.toNat

/-- The number of lines: the line feeds, and one more if characters follow the last of them. -/
def countLines (text : List Char) : Nat :=
  match text.getLast? with
  | none => 0
  | some c => lineFeeds text + if c = '\n' then 0 else 1

@[simp] theorem lineFeeds_nil : lineFeeds [] = 0 := rfl

@[simp] theorem lineFeeds_append (a b : List Char) : lineFeeds (a ++ b) = lineFeeds a + lineFeeds b :=
  List.count_append

/-- A position within a text: line and column, both from 1. -/
structure Position where
  line : Nat
  column : Nat
deriving DecidableEq, Repr

namespace Position

/-- The position of the first character. -/
def start : Position := ⟨1, 1⟩

/-- The position after one more character. -/
def next (p : Position) (c : Char) : Position :=
  if c = '\n' then ⟨p.line + 1, 1⟩ else ⟨p.line, p.column + 1⟩

/-- The position after a piece of text. -/
def advance (p : Position) (cs : List Char) : Position :=
  cs.foldl next p

/-- Whether `p` stands at or before `q` in the text. -/
def atOrBefore (p q : Position) : Bool :=
  p.line < q.line || p.line == q.line && p.column ≤ q.column

@[simp] theorem advance_nil (p : Position) : p.advance [] = p := rfl

@[simp] theorem advance_append (p : Position) (a b : List Char) :
    p.advance (a ++ b) = (p.advance a).advance b :=
  List.foldl_append

end Position

end Conformance.Text
