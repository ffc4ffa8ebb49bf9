import Conformance.Rule.Token

/-!
# Scanning a rule text

A scanner takes lexeme after lexeme. It keeps the offset where it stands, the number of the line and the offset where
that line starts, and counts columns from there. A new line starts behind a line feed that stands by itself and behind
the last line feed of a block comment; other lexemes are passed without a look at their characters.
-/

namespace Conformance

/-- How many characters stand before the last line feed, if there is one. -/
def Text.lastLineFeed? : List Char → Option Nat
  | [] => none
  | c :: cs =>
    match lastLineFeed? cs with
    | some n => some (n + 1)
    | none => if c = '\n' then some 0 else none

structure Scanner where
  /-- The offset of the next character. -/
  offset : Nat := 0
  line : Nat := 1
  /-- The offset of the first character of the line. -/
  lineStart : Nat := 0
deriving DecidableEq, Repr

namespace Scanner

/-- The position of the next character. -/
def position (s : Scanner) : Text.Position := ⟨s.line, s.offset - s.lineStart + 1⟩

/-- The scanner behind a lexeme. -/
def pass (s : Scanner) (l : Lexeme) : Scanner :=
  let stop := s.offset + l.text.length
  match l.kind with
  | .blank => if l.text = ['\n'] then ⟨stop, s.line + 1, stop⟩ else { s with offset := stop }
  | .blockComment _ =>
    { offset := stop
      line := s.line + Text.lineFeeds l.text
      lineStart := match Text.lastLineFeed? l.text with
        | some n => s.offset + n + 1
        | none => s.lineStart }
  | _ => { s with offset := stop }

/-- The lexemes that the scanner takes from the rest of a text, each where it finds it. -/
def scanFrom (s : Scanner) : List Char → List PlacedLexeme
  | [] => []
  | c :: cs =>
    let (kind, n) := Lexeme.classify c cs
    let l : Lexeme := ⟨kind, c :: cs.take n⟩
    ⟨l, s.position⟩ :: scanFrom (s.pass l) (cs.drop n)
termination_by text => text.length

/-- The lexemes that a scanner takes from a text. -/
def scan (text : List Char) : List PlacedLexeme := scanFrom {} text

/-- The tokens of a text and the problems found on the way. -/
def tokenize (text : List Char) : List Token × List Diagnostic :=
  let taken := scan text
  (taken.filterMap (·.token?), taken.filterMap (·.diagnostic?))

end Scanner

end Conformance
