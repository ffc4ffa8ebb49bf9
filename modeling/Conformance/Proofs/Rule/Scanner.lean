import Conformance.Proofs.Rule.LineEnds
import Conformance.Rule.Scanner

/-!
# A scanner finds every lexeme in its place

Main statement: `scan_eq`, a scanner takes from a text the lexemes that make it up, each at the position that counting
character by character gives (`PlacedLexeme.ofText`).

One step is right (`Scanner.AtPosition.pass`): no lexeme holds a line feed but blanks and block comments
(`Lexeme.Stands.lineFeed_notMem`), and behind a piece of text the column is counted from its last line feed
(`Text.Position.advance_eq`).
-/

namespace Conformance

open Text (lineFeeds lastLineFeed?)

/-! ## The last line feed -/

namespace Text

theorem lastLineFeed?_eq_none_iff {cs : List Char} : lastLineFeed? cs = none ↔ '\n' ∉ cs := by
  induction cs with
  | nil => simp [lastLineFeed?]
  | cons c cs ih =>
    rw [List.mem_cons, not_or, ← ih, lastLineFeed?]
    cases lastLineFeed? cs with
    | some n => simp
    | none => by_cases hc : c = '\n' <;> simp [hc, eq_comm]

theorem lt_of_lastLineFeed? {cs : List Char} {n : Nat} (h : lastLineFeed? cs = some n) : n < cs.length := by
  induction cs generalizing n with
  | nil => cases h
  | cons c cs ih =>
    rw [lastLineFeed?] at h
    cases hlast : lastLineFeed? cs with
    | some m =>
      rw [hlast] at h
      obtain rfl := Option.some.inj h
      exact Nat.succ_lt_succ (ih hlast)
    | none =>
      simp only [hlast, Option.ite_none_right_eq_some, Option.some.injEq] at h
      obtain ⟨-, rfl⟩ := h
      exact Nat.succ_pos _

/-- **Behind a piece of text** the line is lower by its line feeds, and the column is counted from the last of them. -/
theorem Position.advance_eq (p : Position) (cs : List Char) : p.advance cs =
    ⟨p.line + lineFeeds cs, match lastLineFeed? cs with
      | some n => cs.length - n
      | none => p.column + cs.length⟩ := by
  induction cs generalizing p with
  | nil => rfl
  | cons c cs ih =>
    have hstep : p.advance (c :: cs) = (p.next c).advance cs := rfl
    have hcount : (p.next c).line + lineFeeds cs = p.line + lineFeeds (c :: cs) := by
      by_cases hc : c = '\n' <;> simp [next, lineFeeds, hc]
      omega
    rw [hstep, ih, hcount, lastLineFeed?]
    congr 1
    cases lastLineFeed? cs with
    | some n => simp
    | none =>
      by_cases hc : c = '\n' <;> simp [next, hc]
      all_goals omega

end Text

/-- **Only blanks and block comments hold line feeds.** -/
theorem Lexeme.Stands.lineFeed_notMem {l : Lexeme} {rest : List Char} (h : l.Stands rest) (hblank : l.kind ≠ .blank)
    (hblock : ∀ closed, l.kind ≠ .blockComment closed) : '\n' ∉ l.text := by
  cases h with
  | blank => exact absurd rfl hblank
  | hashComment ht => simpa using ht
  | slashComment ht => simpa using ht
  | closedComment => exact absurd rfl (hblock true)
  | openComment => exact absurd rfl (hblock false)
  | closedString hbody => simpa using hbody.no_lineFeed
  | openString hbody => simpa using hbody.no_lineFeed
  | number hw => exact hw.lineFeed_notMem
  | word hw => exact hw.lineFeed_notMem
  | mark hm =>
    rintro hmem
    rw [← List.mem_singleton.mp hmem] at hm
    exact absurd hm (by decide)
  | stray hb =>
    intro hmem
    rw [← List.mem_singleton.mp hmem] at hb
    exact absurd hb (by decide)

/-! ## One step -/

namespace Scanner

/-- The scanner stands at the position, in a line that does not start further on. -/
structure AtPosition (s : Scanner) (p : Text.Position) : Prop where
  lineStart_le : s.lineStart ≤ s.offset
  position_eq : s.position = p

section Pass

variable {s : Scanner} {p : Text.Position} (h : s.AtPosition p)
include h

/-- Without line feeds only the offset grows. -/
theorem AtPosition.forward {cs : List Char} (hfree : '\n' ∉ cs) :
    AtPosition { s with offset := s.offset + cs.length } (p.advance cs) := by
  obtain ⟨hle, rfl⟩ := h
  refine ⟨Nat.le_add_right_of_le hle, ?_⟩
  rw [Text.Position.advance_eq, Text.lastLineFeed?_eq_none_iff.mpr hfree, lineFeeds, List.count_eq_zero.mpr hfree]
  simp only [position, Nat.add_zero, Text.Position.mk.injEq, true_and]
  omega

/-- Behind a block comment the line starts after the last line feed in it. -/
theorem AtPosition.pass_blockComment (closed : Bool) (cs : List Char) :
    (s.pass ⟨.blockComment closed, cs⟩).AtPosition (p.advance cs) := by
  obtain ⟨hle, rfl⟩ := h
  rw [Text.Position.advance_eq, pass]
  cases hlast : lastLineFeed? cs with
  | none =>
    refine ⟨Nat.le_add_right_of_le hle, ?_⟩
    simp only [position, Text.Position.mk.injEq, true_and]
    omega
  | some n =>
    have hlt := Text.lt_of_lastLineFeed? hlast
    refine ⟨by dsimp only; omega, ?_⟩
    simp only [position, Text.Position.mk.injEq, true_and]
    omega

/-- **Behind a lexeme** the scanner stands where the lexeme ends. -/
theorem AtPosition.pass {l : Lexeme} {rest : List Char} (hl : l.Stands rest) :
    (s.pass l).AtPosition (p.advance l.text) := by
  have hforward := fun hblank hblock => h.forward (hl.lineFeed_notMem hblank hblock)
  cases hl with
  | @blank c =>
    by_cases hc : c = '\n'
    · obtain ⟨hle, rfl⟩ := h
      subst hc
      refine ⟨Nat.le_refl _, ?_⟩
      simp [position, Scanner.pass, Text.Position.advance, Text.Position.next]
    · have hpass : s.pass ⟨.blank, [c]⟩ = { s with offset := s.offset + [c].length } := by
        simp [Scanner.pass, hc]
      rw [hpass]
      exact h.forward (by simpa using fun heq => hc heq.symm)
  | closedComment => exact h.pass_blockComment true _
  | openComment => exact h.pass_blockComment false _
  | hashComment => exact hforward (by simp) (by simp)
  | slashComment => exact hforward (by simp) (by simp)
  | closedString => exact hforward (by simp) (by simp)
  | openString => exact hforward (by simp) (by simp)
  | number => exact hforward (by simp) (by simp)
  | word => exact hforward (by simp) (by simp)
  | mark => exact hforward (by simp) (by simp)
  | stray => exact hforward (by simp) (by simp)

end Pass

/-! ## The scan -/

/-- The first lexeme of a text is taken first. -/
theorem scanFrom_of_stands {l : Lexeme} {rest : List Char} (hl : l.Stands rest) (s : Scanner) :
    s.scanFrom (l.text ++ rest) = ⟨l, s.position⟩ :: (s.pass l).scanFrom rest := by
  obtain ⟨c, cs, htext, hclass⟩ := hl.classify_eq
  obtain ⟨kind, text⟩ := l
  obtain rfl : text = c :: cs := htext
  rw [List.cons_append, scanFrom]
  simp [hclass]

theorem scanFrom_eq {s : Scanner} {p : Text.Position} (h : s.AtPosition p) {text : List Char} {ls : List Lexeme}
    (hcut : Lexeme.Cut text ls) : s.scanFrom text = PlacedLexeme.place p ls := by
  induction hcut generalizing s p with
  | nil => rw [scanFrom, PlacedLexeme.place]
  | cons hl _ ih => rw [scanFrom_of_stands hl, PlacedLexeme.place, h.position_eq, ih (h.pass hl)]

/-- **A scanner takes all lexemes of a text, each in its place.** -/
theorem scan_eq (text : List Char) : scan text = PlacedLexeme.ofText text :=
  scanFrom_eq ⟨Nat.le_refl _, rfl⟩ (Lexeme.cut_lexemes text)

/-- **Scanning gives the tokens and the problems of a text.** -/
theorem tokenize_eq (text : List Char) : tokenize text = (Token.ofText text, Token.diagnosticsOfText text) := by
  rw [tokenize, scan_eq, Token.ofText, Token.diagnosticsOfText]

end Scanner

end Conformance
