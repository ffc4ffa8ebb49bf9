import Conformance.Yaml.Source

/-!
# Places in a YAML text

Besides the line feed, three further characters break lines. A place knows its line and column, because indentation
gives structure. Columns do not count byte-order marks.

Where a text breaks off, looking further fails. The next character of a place is always looked at on the way there.
-/

namespace Conformance.Yaml

/-- Line breaks, apart from the carriage return, which no text holds any more when it is read. -/
def isBreak (c : Char) : Bool :=
  c == '\n' || c == '\x85' || c == '\u2028' || c == '\u2029'

/-- A line break as part of a value. -/
def breakValue (c : Char) : Char :=
  if c = '\x85' then '\n' else c

/-- Blanks within a line. -/
def isSpace (c : Char) : Bool := c == ' ' || c == '\t'

/-- Whether a word ends here: at white space or at the end of the text. -/
def endsWord (cs : List Char) : Bool :=
  cs.head?.all fun c => isSpace c || isBreak c

/-- A place in a text. -/
structure Cursor where
  rest : List Char
  /-- Why the text breaks off behind the rest, if it does. -/
  broken? : Option Failure := none
  /-- The number of characters before. -/
  index : Nat := 0
  line : Nat := 0
  column : Nat := 0
deriving Repr

namespace Cursor

/-- The next `n` characters; fewer at the end of the text. -/
def look (c : Cursor) (n : Nat) : Except Failure (List Char) :=
  let seen := c.rest.take n
  match c.broken? with
  | some e => if seen.length < n then .error e else .ok seen
  | none => .ok seen

/-- The place after the next character. -/
def next (c : Cursor) : Cursor :=
  match c.rest with
  | [] => c
  | x :: xs =>
    let d := { c with rest := xs, index := c.index + 1 }
    if isBreak x then { d with line := c.line + 1, column := 0 }
    else { d with column := if x = '\ufeff' then c.column else c.column + 1 }

/-- The place `n` characters further. -/
def after (c : Cursor) : Nat → Cursor
  | 0 => c
  | n + 1 => c.next.after n

/-- The place after the next `n` characters. -/
def skip (c : Cursor) (n : Nat) : Except Failure Cursor :=
  (c.look (n + 1)).map fun _ => c.after n

/-- The place after blanks, comments and line breaks, and whether a line was broken on the way. The list is the rest
of the text. -/
def afterGap (c : Cursor) (inComment broke : Bool) : List Char → Cursor × Bool
  | [] => (c, broke)
  | x :: xs =>
    if isBreak x then c.next.afterGap false true xs
    else if inComment || x = '#' then c.next.afterGap true broke xs
    else if x = ' ' then c.next.afterGap false broke xs
    else (c, broke)

/-- The place after blanks, comments and line breaks, and whether a line was broken on the way. -/
def skipGap (c : Cursor) : Except Failure (Cursor × Bool) :=
  let (d, broke) := c.afterGap false false c.rest
  (d.look 1).map fun _ => (d, broke)

/-- Whether a mark between documents stands here, at the start of a line. -/
def isDocumentMark (c : Cursor) : Except Failure Bool := do
  let mark ← c.look 3
  if mark == ['-', '-', '-'] || mark == ['.', '.', '.'] then return endsWord ((← c.look 4).drop 3)
  else return false

end Cursor

end Conformance.Yaml
