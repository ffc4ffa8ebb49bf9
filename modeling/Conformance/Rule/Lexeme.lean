import Conformance.Text.Alphanumeric
import Conformance.Text.Blank

/-!
# The lexemes of a rule text

A rule text is cut into lexemes without loss: blanks, comments, strings, words, numbers, punctuation marks and stray
characters (`flatMap_text_lexemes`). The first character decides the kind, and how many of the following characters
belong to the lexeme.
-/

namespace Conformance

/-- What a lexeme is. -/
inductive Lexeme.Kind where
  /-- One white-space character. -/
  | blank
  | lineComment
  /-- A comment between slash-star and star-slash, or one that the end of the text cuts off. -/
  | blockComment (closed : Bool)
  /-- A string with its quotes, or one that the end of its line cuts off. -/
  | string (closed : Bool)
  | number
  | word
  | mark
  | stray
deriving DecidableEq, Repr

structure Lexeme where
  kind : Lexeme.Kind
  text : List Char
deriving DecidableEq, Repr

namespace Lexeme

/-- Characters of words: alphanumeric ones and `_ . * $ -`. -/
def isWordChar (c : Char) : Bool :=
  Text.isAlphanumeric c || "_.*$-".toList.contains c

/-- The punctuation marks. -/
def isMark (c : Char) : Bool :=
  "\x7b\x7d[](),:@><=;".toList.contains c

/-- How many characters of a string body stand before its closing quote, the end of the line or the end of the text.
A backslash takes the next character of the line with it. -/
def bodyLength : List Char → Nat
  | [] => 0
  | c :: cs =>
    if c = '"' || c = '\n' then 0
    else if c = '\\' then
      match cs with
      | [] => 1
      | d :: ds => if d = '\n' then 1 else bodyLength ds + 2
    else bodyLength cs + 1

/-- How many characters stand before the first star-slash, if there is one. -/
def commentLength? : List Char → Option Nat
  | [] => none
  | c :: cs =>
    if c = '*' && cs.head? == some '/' then some 0 else (commentLength? cs).map (· + 1)

/-- The kind of the lexeme that starts with `c`, and how many of the characters `cs` after it belong to it. -/
def classify (c : Char) (cs : List Char) : Kind × Nat :=
  if Text.isBlank c then (.blank, 0)
  else if c = '#' || c = '/' && cs.head? == some '/' then
    (.lineComment, (cs.takeWhile (· != '\n')).length)
  else if c = '/' && cs.head? == some '*' then
    match commentLength? (cs.drop 1) with
    | some n => (.blockComment true, n + 3)
    | none => (.blockComment false, cs.length)
  else if c = '"' then
    let n := bodyLength cs
    if (cs.drop n).head? == some '"' then (.string true, n + 1) else (.string false, n)
  else if c.isDigit then
    let digits := (cs.takeWhile Char.isDigit).length
    let word := (cs.takeWhile isWordChar).length
    (if word = digits then .number else .word, word)
  else if isWordChar c then (.word, (cs.takeWhile isWordChar).length)
  else if isMark c then (.mark, 0)
  else (.stray, 0)

/-- The lexemes of a text, in order. -/
def lexemes : List Char → List Lexeme
  | [] => []
  | c :: cs =>
    let (kind, n) := classify c cs
    ⟨kind, c :: cs.take n⟩ :: lexemes (cs.drop n)
termination_by text => text.length

/-- Nothing is lost. -/
theorem flatMap_text_lexemes (text : List Char) : (lexemes text).flatMap (·.text) = text := by
  fun_induction lexemes text with
  | case1 => rfl
  | case2 c cs kind n _ ih => simp [ih]

/-- The decoded body of a string: a backslash makes a line feed of `n`, a tab of `t` and keeps a quote or a backslash;
before any other character it stands for itself. -/
def unescape : List Char → List Char
  | [] => []
  | [c] => [c]
  | c :: d :: cs =>
    if c = '\\' then
      (if d = 'n' then ['\n'] else if d = 't' then ['\t'] else if d = '"' || d = '\\' then [d] else [c, d])
        ++ unescape cs
    else c :: unescape (d :: cs)

/-- The body of a string lexeme, without its quotes. -/
def body (l : Lexeme) : List Char :=
  match l.kind with
  | .string true => (l.text.drop 1).dropLast
  | _ => l.text.drop 1

end Lexeme

end Conformance
