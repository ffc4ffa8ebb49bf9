import Conformance.Rule.Parser
import Conformance.Proofs.Rule.Lexeme
import Conformance.Proofs.Text.LineEnds

/-!
# Rule texts with carriage returns

A rule file is read without unifying its line ends. Still it does not matter whether its lines end with carriage
returns: outside comments they are blanks, a line comment takes them with it, a block comment holds them, and a closed
string cannot hold a line end. So the same lexemes are found at the same places (`PlacedLexeme.read_crlf`), and the same
rule is read with the same problems (`ParsedRule.ofBytes_crlf`). Only a string that is left open would take the carriage
return with it.
-/

namespace Conformance

open Text (crlf crlf_append crlf_of_notMem crlf_cons_of_ne crlf_lineFeed)

namespace Lexeme

section

variable {cs rest : List Char}

theorem NoClose.crlf (h : NoClose cs) : NoClose (crlf cs) := by
  induction cs with
  | nil => exact h
  | cons c cs ih =>
    obtain ⟨hc, hcs⟩ := noClose_cons.mp h
    by_cases hlf : c = '\n'
    · subst hlf
      rw [crlf_lineFeed]
      exact noClose_cons.mpr ⟨by simp, noClose_cons.mpr ⟨by simp, ih hcs⟩⟩
    · rw [crlf_cons_of_ne hlf]
      refine noClose_cons.mpr ⟨fun ⟨hstar, hslash⟩ => hc ⟨hstar, ?_⟩, ih hcs⟩
      rcases Text.head?_crlf cs with heq | ⟨hcr, -⟩
      · exact heq ▸ hslash
      · rw [hcr] at hslash
        exact absurd hslash (by decide)

theorem EndsWord.crlf (h : EndsWord rest) : EndsWord (crlf rest) := by
  intro c hc
  rcases Text.head?_crlf rest with heq | ⟨hcr, -⟩
  · exact h c (heq ▸ hc)
  · rw [hcr, Option.mem_some] at hc
    exact hc ▸ by decide

theorem IsWord.lineFeed_notMem {w : List Char} (h : IsWord w) : '\n' ∉ w :=
  fun hmem => absurd (h.2.1 _ hmem) (by decide)

theorem IsNumber.lineFeed_notMem {w : List Char} (h : IsNumber w) : '\n' ∉ w :=
  fun hmem => absurd (h.2 _ hmem) (by decide)

end

end Lexeme

namespace PlacedLexeme

open Lexeme

section Read

variable {α : Type} {f : PlacedLexeme → Option α}

/-- What is made of the lexemes of a text that starts at a position. -/
def read (f : PlacedLexeme → Option α) (p : Text.Position) (text : List Char) : List α :=
  (place p (lexemes text)).filterMap f

/-- Blanks and line comments give nothing, and what block comments give does not depend on their text. -/
structure Steady (f : PlacedLexeme → Option α) : Prop where
  blank : ∀ text p, f ⟨⟨.blank, text⟩, p⟩ = none
  lineComment : ∀ text p, f ⟨⟨.lineComment, text⟩, p⟩ = none
  blockComment : ∀ closed text text' p, f ⟨⟨.blockComment closed, text⟩, p⟩ = f ⟨⟨.blockComment closed, text'⟩, p⟩

theorem read_of_stands {l : Lexeme} {rest : List Char} (h : Stands l rest) (p : Text.Position) :
    read f p (l.text ++ rest) = (f ⟨l, p⟩).toList ++ read f (p.advance l.text) rest := by
  rw [read, lexemes_of_stands h, place, List.filterMap_cons]
  cases f ⟨l, p⟩ <;> rfl

theorem read_blank (hf : Steady f) {c : Char} (hc : Text.isBlank c = true) (p : Text.Position) (rest : List Char) :
    read f p (c :: rest) = read f (p.next c) rest := by
  have h := read_of_stands (f := f) (Stands.blank hc : Stands _ rest) p
  rwa [hf.blank] at h

/-- A line comment takes the carriage return at the end of its line with it. -/
theorem read_lineComment (hf : Steady f) {head t rest : List Char} (hhead : '\n' ∉ head) (ht : '\n' ∉ t)
    (hstands : ∀ t rest, '\n' ∉ t → EndsLine rest → Stands ⟨.lineComment, head ++ t⟩ rest) (hr : EndsLine rest)
    (ih : ∀ p, read f p (crlf rest) = read f p rest) (p : Text.Position) :
    read f p (crlf (head ++ t ++ rest)) = read f p (head ++ t ++ rest) := by
  have hcomment : ∀ t rest, '\n' ∉ t → EndsLine rest →
      read f p (head ++ t ++ rest) = read f (p.advance (head ++ t)) rest := by
    intro t rest ht hr
    have h := read_of_stands (f := f) (hstands t rest ht hr) p
    rwa [hf.lineComment] at h
  rw [crlf_append, crlf_append, crlf_of_notMem hhead, crlf_of_notMem ht, hcomment t rest ht hr, ← ih]
  cases rest with
  | nil => exact hcomment t [] ht hr
  | cons c rest =>
    obtain rfl := hr c rfl
    have hline : EndsLine ('\n' :: crlf rest) := by simp [EndsLine]
    have hlonger := hcomment (t ++ ['\r']) ('\n' :: crlf rest) (by simpa using ht) hline
    rw [crlf_lineFeed, read_blank hf (by decide)]
    simpa [Text.Position.advance] using hlonger

section Step

variable {l : Lexeme} {rest : List Char} (hl : Stands l rest) (ih : ∀ p, read f p (crlf rest) = read f p rest)
include hl ih

/-- A lexeme without line feeds stays what it is. -/
theorem read_crlf_of_notMem (hfree : '\n' ∉ l.text) (hstands : Stands l (crlf rest)) (p : Text.Position) :
    read f p (crlf (l.text ++ rest)) = read f p (l.text ++ rest) := by
  rw [crlf_append, crlf_of_notMem hfree, read_of_stands hstands, read_of_stands hl, ih]

/-- A block comment holds the carriage returns. -/
theorem read_crlf_blockComment (hf : Steady f) (closed : Bool) (hkind : l.kind = .blockComment closed)
    (hstands : Stands ⟨.blockComment closed, crlf l.text⟩ (crlf rest)) (p : Text.Position) :
    read f p (crlf (l.text ++ rest)) = read f p (l.text ++ rest) := by
  obtain ⟨kind, text⟩ := l
  obtain rfl : kind = .blockComment closed := hkind
  rw [crlf_append, read_of_stands hl]
  have h := read_of_stands (f := f) hstands p
  rw [hf.blockComment closed _ text, Text.Position.advance_crlf, ih] at h
  exact h

/-- **One lexeme gives the same** with carriage returns in the text. -/
theorem read_crlf_of_stands (hf : Steady f) (hclosed : l.kind ≠ .string false) (p : Text.Position) :
    read f p (crlf (l.text ++ rest)) = read f p (l.text ++ rest) := by
  have hplain := read_crlf_of_notMem hl ih
  have hblock := read_crlf_blockComment hl ih hf
  cases hl with
  | @blank c _ hb =>
    by_cases hc : c = '\n'
    · subst hc
      rw [List.singleton_append, crlf_lineFeed, read_blank hf rfl, read_blank hf hb, read_blank hf hb, ih]
      rfl
    · exact hplain (by simpa using fun h => hc h.symm) (.blank hb) p
  | hashComment ht hr =>
    exact read_lineComment hf (show '\n' ∉ ['#'] by simp) ht (fun t rest => .hashComment) hr ih p
  | slashComment ht hr =>
    exact read_lineComment hf (show '\n' ∉ ['/', '/'] by simp) ht (fun t rest => .slashComment) hr ih p
  | @closedComment t _ ht =>
    refine hblock true rfl ?_ p
    have ht' : NoClose (crlf t ++ ['*']) := by simpa [crlf_cons_of_ne] using ht.crlf
    have htext : crlf ('/' :: '*' :: (t ++ ['*', '/'])) = '/' :: '*' :: (crlf t ++ ['*', '/']) := by
      simp [crlf_cons_of_ne]
    rw [htext]
    exact .closedComment ht'
  | @openComment t ht =>
    refine hblock false rfl ?_ p
    have htext : crlf ('/' :: '*' :: t) = '/' :: '*' :: crlf t := by simp [crlf_cons_of_ne]
    rw [htext]
    exact .openComment ht.crlf
  | closedString hs => exact hplain (by simpa using hs.no_lineFeed) (.closedString hs) p
  | openString => exact absurd rfl hclosed
  | number hw hr => exact hplain hw.lineFeed_notMem (.number hw hr.crlf) p
  | word hw hr => exact hplain hw.lineFeed_notMem (.word hw hr.crlf) p
  | @mark c _ hm =>
    have hc : '\n' ≠ c := by
      rintro rfl
      exact absurd hm (by decide)
    exact hplain (by simpa using hc) (.mark hm) p
  | @stray c _ hb hw hm h1 h2 h3 =>
    have hc : '\n' ≠ c := by
      rintro rfl
      exact absurd hb (by decide)
    refine hplain (by simpa using hc) (.stray hb hw hm h1 h2 fun hslash => ?_) p
    obtain ⟨h4, h5⟩ := h3 hslash
    rcases Text.head?_crlf rest with heq | ⟨hcr, -⟩
    · exact heq ▸ ⟨h4, h5⟩
    · rw [hcr]
      exact ⟨by decide, by decide⟩

end Step

/-- **The same is made of a text with carriage returns**, unless a string is left open. -/
theorem read_crlf (hf : Steady f) {text : List Char} (h : ∀ l ∈ lexemes text, l.kind ≠ .string false)
    (p : Text.Position) : read f p (crlf text) = read f p text := by
  have hcut : ∀ ls, Cut text ls → (∀ l ∈ ls, l.kind ≠ .string false) → ∀ p, read f p (crlf text) = read f p text := by
    clear h
    intro ls hls
    induction hls with
    | nil => exact fun _ p => rfl
    | @cons l rest ls hl _ ih =>
      intro hclosed
      obtain ⟨hl', hls⟩ := List.forall_mem_cons.mp hclosed
      exact read_crlf_of_stands hl (ih hls) hf hl'
  exact hcut _ (cut_lexemes text) h p

theorem steady_token? : Steady token? := ⟨fun _ _ => rfl, fun _ _ => rfl, fun _ _ _ _ => rfl⟩

theorem steady_diagnostic? : Steady diagnostic? := by
  refine ⟨fun _ _ => rfl, fun _ _ => rfl, fun closed _ _ _ => ?_⟩
  cases closed <;> rfl

end Read

end PlacedLexeme

/-! ## Rules -/

/-- No string of the text is left open. -/
def Text.ClosesStrings (text : List Char) : Prop := ∀ l ∈ Lexeme.lexemes text, l.kind ≠ .string false

instance (text : List Char) : Decidable (Text.ClosesStrings text) :=
  decidable_of_iff ((Lexeme.lexemes text).all (·.kind != .string false) = true) (by simp [Text.ClosesStrings])

namespace ParsedRule

theorem ofText_crlf {text : List Char} (h : Text.ClosesStrings text) : ofText (crlf text) = ofText text := by
  have htokens : Token.ofText (crlf text) = Token.ofText text :=
    PlacedLexeme.read_crlf PlacedLexeme.steady_token? h .start
  have hproblems : Token.diagnosticsOfText (crlf text) = Token.diagnosticsOfText text :=
    PlacedLexeme.read_crlf PlacedLexeme.steady_diagnostic? h .start
  rw [ofText, ofText, htokens, hproblems]

/-- A string that is left open takes the carriage return with it. -/
example : (ofText "location: \"a\n".toList).rule.location = "a" ∧
    (ofText (crlf "location: \"a\n".toList)).rule.location = "a\r" := by decide +kernel

/-- Two byte sequences end at the same place if they differ in carriage returns before line feeds. -/
theorem bytePosition_crlf {bytes bytes' : List UInt8} {n m : Nat}
    (h : bytes'.take m = Text.Utf8.crlf (bytes.take n)) : bytePosition bytes' m = bytePosition bytes n := by
  simp only [bytePosition, h, Text.Utf8.crlf, Text.count_putBefore (by decide : (13 : UInt8) ≠ 10),
    Text.takeWhile_reverse_putBefore]

/-- **A rule file with carriage returns** holds the same rule and the same problems at the same places. -/
theorem ofBytes_crlf {bytes : List UInt8} (h : Text.ClosesStrings (Text.Utf8.decode bytes)) :
    ofBytes (Text.Utf8.crlf bytes) = ofBytes bytes := by
  rw [ofBytes, ofBytes, Text.Utf8.decode_crlf, ofText_crlf h]
  rcases Text.Utf8.firstInvalid?_crlf bytes with ⟨hnone, hnone'⟩ | ⟨n, m, hn, hm, htake⟩
  · rw [hnone, hnone']
  · rw [hn, hm]
    simp only [bytePosition_crlf htake]

end ParsedRule

end Conformance
