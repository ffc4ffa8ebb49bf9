import Conformance.Rule.Diagnostic
import Conformance.Rule.Lexeme

/-!
# The tokens of a rule text

Placing the lexemes of a text gives each its position. Words, numbers, strings and punctuation marks are tokens; stray
characters and what is left open are problems; blanks and comments are neither.
-/

namespace Conformance

inductive Token.Kind where
  | ident
  | string
  | number
  | punct
deriving DecidableEq, Repr

/-- A token: its kind, its value (for a string, the decoded body) and where it starts. -/
structure Token where
  kind : Token.Kind
  value : String
  position : Text.Position
deriving DecidableEq, Repr

/-- A lexeme and where it starts. -/
structure PlacedLexeme where
  lexeme : Lexeme
  position : Text.Position
deriving DecidableEq, Repr

namespace PlacedLexeme

/-- The lexemes one after the other, the first of them at `p`. -/
def place (p : Text.Position) : List Lexeme → List PlacedLexeme
  | [] => []
  | l :: ls => ⟨l, p⟩ :: place (p.advance l.text) ls

def token? (l : PlacedLexeme) : Option Token :=
  match l.lexeme.kind with
  | .word => some ⟨.ident, .ofList l.lexeme.text, l.position⟩
  | .number => some ⟨.number, .ofList l.lexeme.text, l.position⟩
  | .mark => some ⟨.punct, .ofList l.lexeme.text, l.position⟩
  | .string _ => some ⟨.string, .ofList (Lexeme.unescape l.lexeme.body), l.position⟩
  | _ => none

def problem? (l : PlacedLexeme) : Option Problem :=
  match l.lexeme.kind with
  | .stray => l.lexeme.text.head?.map .strayCharacter
  | .string false => some .unclosedString
  | .blockComment false => some .unclosedComment
  | _ => none

def diagnostic? (l : PlacedLexeme) : Option Diagnostic :=
  l.problem?.map fun p => ⟨l.position, p⟩

/-- The placed lexemes of a text. -/
def ofText (text : List Char) : List PlacedLexeme :=
  place .start (Lexeme.lexemes text)

end PlacedLexeme

namespace Token

def isIdent (t : Token) (name : String) : Bool :=
  t.kind == .ident && t.value == name

def isPunct (t : Token) (mark : String) : Bool :=
  t.kind == .punct && t.value == mark

/-- The tokens of a text. -/
def ofText (text : List Char) : List Token :=
  (PlacedLexeme.ofText text).filterMap (·.token?)

/-- The problems found while a text is cut into tokens. -/
def diagnosticsOfText (text : List Char) : List Diagnostic :=
  (PlacedLexeme.ofText text).filterMap (·.diagnostic?)

end Token

end Conformance
