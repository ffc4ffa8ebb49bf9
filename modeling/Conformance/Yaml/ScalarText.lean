import Conformance.Text.DecimalDigit
import Conformance.Text.Hexadecimal
import Conformance.Yaml.Cursor

/-!
# The texts of scalars

A scalar may extend over several lines. A single line break within it counts as a blank; of several breaks the first is
dropped and the others are kept.
-/

namespace Conformance.Yaml

/-- What the white space between two lines of a scalar contributes. -/
def foldedBreaks (first : Char) (others : List Char) : List Char :=
  if breakValue first != '\n' then breakValue first :: others
  else if others.isEmpty then [' '] else others

/-! ## Plain scalars -/

/-- Whether a colon before these characters ends a plain scalar. -/
def endsKey (inFlow : Bool) (cs : List Char) : Bool :=
  endsWord cs || inFlow && cs.head?.any fun c => ",[]\x7b\x7d".toList.contains c

/-- How many characters belong to a plain scalar before white space or an indicator. -/
def plainLength (inFlow : Bool) : List Char → Nat
  | [] => 0
  | c :: cs =>
    if isSpace c || isBreak c || c = ':' && endsKey inFlow cs || inFlow && ",?[]\x7b\x7d".toList.contains c then 0
    else plainLength inFlow cs + 1

/-- The next word of a plain scalar and the place behind it. A colon there is looked at together with what follows. -/
def plainWord (inFlow : Bool) (c : Cursor) : Except Failure (List Char × Cursor) := do
  let n := plainLength inFlow c.rest
  let d ← c.skip n
  if d.rest.head? = some ':' then
    let _ ← d.look 2
  return (c.rest.take n, d)

/-- The place behind blanks and line breaks, with the breaks; none if a document mark stands at the start of one of
the lines. The list is the rest of the text. -/
def plainBreaks (c : Cursor) (breaks : List Char) : List Char → Except Failure (Cursor × Option (List Char))
  | [] => .ok (c, some breaks)
  | x :: xs => do
    if x = ' ' then plainBreaks (← c.skip 1) breaks xs
    else if isBreak x then
      let d ← c.skip 1
      if ← d.isDocumentMark then return (d, none)
      else plainBreaks d (breaks ++ [breakValue x]) xs
    else return (c, some breaks)

/-- White space within a plain scalar: the place behind it, its value and whether it breaks a line. -/
def plainGap (c : Cursor) : Except Failure (Cursor × List Char × Bool) := do
  let blanks := c.rest.takeWhile (· == ' ')
  let c ← c.skip blanks.length
  match c.rest with
  | [] => return (c, blanks, false)
  | x :: xs =>
    if isBreak x then
      let d ← c.skip 1
      if ← d.isDocumentMark then return (d, [], true)
      else match ← plainBreaks d [] xs with
        | (d, some others) => return (d, foldedBreaks x others, true)
        | (d, none) => return (d, [], true)
    else return (c, blanks, false)

/-- A plain scalar: the place behind it, its value and whether a line was broken after its last word. `gap` is the white
space before the next word, and `indent` the least column of further lines. -/
def plainScalar (inFlow : Bool) (indent : Int) (c : Cursor) (value gap : List Char) (broke : Bool) :
    Except Failure (Cursor × List Char × Bool) :=
  if c.rest.head? = some '#' then .ok (c, value, broke)
  else match plainWord inFlow c with
    | .error e => .error e
    | .ok ([], _) => .ok (c, value, broke)
    | .ok (word, d) =>
      let value := value ++ gap ++ word
      match plainGap d with
      | .error e => .error e
      | .ok (d, gap, broke) =>
        if gap.isEmpty || d.rest.head? = some '#' || !inFlow && (d.column : Int) < indent then .ok (d, value, broke)
        else if d.rest.length < c.rest.length then plainScalar inFlow indent d value gap broke
        else .ok (d, value, broke)
termination_by c.rest.length

/-! ## Quoted scalars -/

/-- The place behind further breaks of a quoted scalar, with the breaks. A document mark must not stand there. The list
is the rest of the text. -/
def quotedBreaks (c : Cursor) (breaks : List Char) (atLineStart : Bool) :
    List Char → Except Failure (Cursor × List Char)
  | [] => .ok (c, breaks)
  | x :: xs => do
    if atLineStart then
      if ← c.isDocumentMark then throw .malformed
    if isSpace x then quotedBreaks (← c.skip 1) breaks false xs
    else if isBreak x then quotedBreaks (← c.skip 1) (breaks ++ [breakValue x]) true xs
    else return (c, breaks)

/-- White space within a quoted scalar: the place behind it and its value. -/
def quotedGap (c : Cursor) : Except Failure (Cursor × List Char) := do
  let blanks := c.rest.takeWhile isSpace
  let c ← c.skip blanks.length
  match c.rest with
  | [] => throw .malformed
  | x :: xs =>
    if isBreak x then
      let (d, others) ← quotedBreaks (← c.skip 1) [] true xs
      return (d, foldedBreaks x others)
    else return (c, blanks)

/-- The character that an escape of one character stands for. -/
def escapes : List (Char × Char) :=
  [('0', '\x00'), ('a', '\x07'), ('b', '\x08'), ('t', '\t'), ('\t', '\t'), ('n', '\n'), ('v', '\x0b'),
   ('f', '\x0c'), ('r', '\r'), ('e', '\x1b'), (' ', ' '), ('"', '"'), ('\\', '\\'), ('/', '/'), ('N', '\x85'),
   ('_', '\xa0'), ('L', '\u2028'), ('P', '\u2029')]

/-- How many hexadecimal digits follow the letter of an escape. -/
def escapeDigits : List (Char × Nat) := [('x', 2), ('u', 4), ('U', 8)]

/-- The greatest code point. -/
def greatestPoint : Nat := 0x10FFFF

/-- The number in an escape, if it is a code point. -/
def escapedPoint (n : Nat) : Except Failure Nat :=
  if n ≤ greatestPoint then .ok n else .error (if n < Nat.pow 2 31 then .noCodePoint else .escapeOverflow)

/-- The code points of characters. -/
def points (cs : List Char) : List Nat := cs.map (·.toNat)

/-- The number that `n` hexadecimal digits write, and the place behind them. -/
def escapedNumber (c : Cursor) (n : Nat) : Except Failure (Cursor × List Nat) := do
  let digits := (c.rest.take n).takeWhile fun x => (Text.hexDigitValue? x).isSome
  if digits.length < n then
    let _ ← c.look (digits.length + 1)
    throw .malformed
  let point ← escapedPoint (Text.ofDigits 16 (digits.filterMap Text.hexDigitValue?))
  return (← c.skip n, [point])

/-- An escape after its backslash: the place behind it and its code points. -/
def escape (c : Cursor) : Except Failure (Cursor × List Nat) := do
  match c.rest with
  | [] => throw .malformed
  | x :: xs =>
    match escapes.lookup x, escapeDigits.lookup x with
    | some y, _ => return (← c.skip 1, [y.toNat])
    | none, some n => escapedNumber (← c.skip 1) n
    | none, none =>
      if isBreak x then
        let (d, breaks) ← quotedBreaks (← c.skip 1) [] true xs
        return (d, points breaks)
      else throw .malformed

/-- The next piece of a quoted scalar: the place behind it and its code points; none if the scalar ends here. -/
def quotedPiece (double : Bool) (c : Cursor) : Except Failure (Cursor × Option (List Nat)) := do
  match c.rest with
  | [] => throw .malformed
  | x :: _ =>
    if isSpace x || isBreak x then
      let (d, gap) ← quotedGap c
      return (d, some (points gap))
    else if double && x = '\\' then
      let (d, escaped) ← escape (← c.skip 1)
      return (d, some escaped)
    else if double && x = '"' then return (← c.skip 1, none)
    else if !double && x = '\'' then
      if (← c.look 2) == ['\'', '\''] then return (← c.skip 2, some (points ['\'']))
      else return (← c.skip 1, none)
    else return (← c.skip 1, some (points [x]))

/-- A quoted scalar after its opening quote: the place behind its closing quote and its code points. -/
def quotedScalar (double : Bool) (c : Cursor) (value : List Nat) : Except Failure (Cursor × List Nat) :=
  match quotedPiece double c with
  | .error e => .error e
  | .ok (d, none) => .ok (d, value)
  | .ok (d, some piece) =>
    if d.rest.length < c.rest.length then quotedScalar double d (value ++ piece) else .error .malformed
termination_by c.rest.length

end Conformance.Yaml
