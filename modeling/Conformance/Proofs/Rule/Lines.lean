import Conformance.Proofs.Rule.LineEnds
import Conformance.Proofs.Rule.Wording
import Conformance.Proofs.Text.Position

/-!
# Rule texts line by line

What is read from the lines of a text does not depend on the lines before them, except that it stands further down
(`Token.ofText_append_lineFeed`). Only a block comment that is left open before a line takes the line with it.

A lexeme that is moved down by some lines gives a token or a diagnostic that is moved down by as many
(`PlacedLexeme.read_lowered`), and a line feed parts what is read before it from what is read behind it, as other blanks
do where nothing is left open (`PlacedLexeme.read_append_blank`).
-/

namespace Conformance

open Text (lineFeeds)

/-! ## Moving down -/

namespace Text.Position

/-- The position `n` lines further down, in the same column. -/
def lowered (n : Nat) (p : Position) : Position := ⟨p.line + n, p.column⟩

theorem next_lowered (n : Nat) (p : Position) (c : Char) : (p.lowered n).next c = (p.next c).lowered n := by
  by_cases hc : c = '\n'
  · simp only [next, lowered, hc, ↓reduceIte, Position.mk.injEq, and_true]
    omega
  · simp [next, lowered, hc]

theorem advance_lowered (n : Nat) (p : Position) (cs : List Char) :
    (p.lowered n).advance cs = (p.advance cs).lowered n := by
  induction cs generalizing p with
  | nil => rfl
  | cons c cs ih =>
    have hstep : (p.lowered n).advance (c :: cs) = ((p.next c).lowered n).advance cs :=
      congrArg (advance · cs) (next_lowered n p c)
    rw [hstep, ih]
    rfl

/-- The line after a text starts as many lines below the start as the text has line feeds, and one more. -/
theorem next_advance_start (text : List Char) :
    (start.advance text).next '\n' = start.lowered (lineFeeds text + 1) := by
  rw [start_advance]
  simp only [next, lowered, start, ↓reduceIte, Position.mk.injEq, and_true]
  omega

end Text.Position

/-- The token `n` lines further down. -/
def Token.lowered (n : Nat) (t : Token) : Token := { t with position := t.position.lowered n }

/-- The diagnostic `n` lines further down. -/
def Diagnostic.lowered (n : Nat) (d : Diagnostic) : Diagnostic := { d with position := d.position.lowered n }

/-! ## Lexemes -/

namespace PlacedLexeme

/-- The lexeme `n` lines further down. -/
def lowered (n : Nat) (l : PlacedLexeme) : PlacedLexeme := { l with position := l.position.lowered n }

theorem place_lowered (n : Nat) (p : Text.Position) (ls : List Lexeme) :
    place (p.lowered n) ls = (place p ls).map (lowered n) := by
  induction ls generalizing p with
  | nil => rfl
  | cons l ls ih =>
    rw [place, Text.Position.advance_lowered, ih]
    rfl

theorem place_append (p : Text.Position) (ls ms : List Lexeme) :
    place p (ls ++ ms) = place p ls ++ place (p.advance (ls.flatMap (·.text))) ms := by
  induction ls generalizing p with
  | nil => rfl
  | cons l ls ih =>
    rw [List.cons_append, place, ih, List.flatMap_cons, Text.Position.advance_append]
    rfl

theorem token?_lowered (n : Nat) (l : PlacedLexeme) : (l.lowered n).token? = l.token?.map (Token.lowered n) := by
  obtain ⟨⟨kind, text⟩, p⟩ := l
  cases kind <;> rfl

theorem diagnostic?_lowered (n : Nat) (l : PlacedLexeme) :
    (l.lowered n).diagnostic? = l.diagnostic?.map (Diagnostic.lowered n) := by
  have hproblem : (l.lowered n).problem? = l.problem? := rfl
  rw [diagnostic?, diagnostic?, hproblem, Option.map_map]
  rfl

section Read

variable {α : Type} {f : PlacedLexeme → Option α}

/-- **What is made of a text moves down with the text**, if what is made of each lexeme does. -/
theorem read_lowered {n : Nat} {move : α → α} (hf : ∀ l, f (l.lowered n) = (f l).map move) (p : Text.Position)
    (text : List Char) : read f (p.lowered n) text = (read f p text).map move := by
  rw [read, read, place_lowered, List.filterMap_map, List.map_filterMap]
  congr 1
  funext l
  exact hf l

/-- **A blank parts what is made of a text**, if the last lexeme before it ends there. -/
theorem read_append_blank (hf : Steady f) {before : List Char} {c : Char} (hc : Text.isBlank c = true)
    (h : ∀ l ∈ (Lexeme.lexemes before).getLast?, l.kind.EndsAt c) (after : List Char) (p : Text.Position) :
    read f p (before ++ c :: after) = read f p before ++ read f ((p.advance before).next c) after := by
  rw [read, Lexeme.lexemes_append_blank hc h, place_append, Lexeme.flatMap_text_lexemes, List.filterMap_append,
    ← read_blank hf hc]
  rfl

/-- **A line feed parts what is made of a text**, unless it stands inside a block comment. -/
theorem read_append_lineFeed (hf : Steady f) {before : List Char} (h : Token.ClosesComments before)
    (after : List Char) (p : Text.Position) :
    read f p (before ++ '\n' :: after) = read f p before ++ read f ((p.advance before).next '\n') after :=
  read_append_blank hf (by decide)
    (fun l hl => Lexeme.Kind.endsAt_lineFeed (h.kind_ne l (List.mem_of_getLast? hl))) after p

end Read

end PlacedLexeme

/-! ## Texts -/

/-- **Lines are read apart.** The tokens of a text whose block comments are closed are followed by the tokens of the
lines behind it, moved down by the lines of the text; diagnostics likewise. -/
theorem Token.ofText_append_lineFeed {before : List Char} (h : ClosesComments before) (after : List Char) :
    ofText (before ++ '\n' :: after) = ofText before ++ (ofText after).map (lowered (lineFeeds before + 1)) ∧
    diagnosticsOfText (before ++ '\n' :: after) =
      diagnosticsOfText before ++ (diagnosticsOfText after).map (Diagnostic.lowered (lineFeeds before + 1)) := by
  constructor
  · have hparts := PlacedLexeme.read_append_lineFeed PlacedLexeme.steady_token? h after .start
    rw [Text.Position.next_advance_start, PlacedLexeme.read_lowered (PlacedLexeme.token?_lowered _)] at hparts
    exact hparts
  · have hparts := PlacedLexeme.read_append_lineFeed PlacedLexeme.steady_diagnostic? h after .start
    rw [Text.Position.next_advance_start, PlacedLexeme.read_lowered (PlacedLexeme.diagnostic?_lowered _)] at hparts
    exact hparts

/-- A line with a stray character, and a line that ends in an open string and a backslash. -/
def raggedLines : List Char := "deny ? # \"\nlocation: \"a\\".toList

theorem Token.ofText_append_raggedLines : ClosesComments raggedLines ∧
    ofText (raggedLines ++ '\n' :: "\"b\" /*".toList) =
      ofText raggedLines ++ (ofText "\"b\" /*".toList).map (lowered 2) ∧
    diagnosticsOfText (raggedLines ++ '\n' :: "\"b\" /*".toList) =
      diagnosticsOfText raggedLines ++ (diagnosticsOfText "\"b\" /*".toList).map (Diagnostic.lowered 2) := by
  have hclosed : ClosesComments raggedLines := by decide +kernel
  have hcount : lineFeeds raggedLines + 1 = 2 := by decide
  have hparts := ofText_append_lineFeed hclosed "\"b\" /*".toList
  rw [hcount] at hparts
  exact ⟨hclosed, hparts⟩

end Conformance
