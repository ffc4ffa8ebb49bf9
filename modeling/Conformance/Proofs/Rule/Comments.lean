import Conformance.Proofs.Rule.Lines

/-!
# Comments as blanks

A comment is read as the blanks that take up its room (`ParsedRule.ofText_blanked`): it gives nothing, and what stands
behind it stands in the same line and column as behind them. So nothing that is written in a comment tells in a rule,
be it a statement, a quote or the beginning of another comment.
-/

namespace Conformance

/-- The text with a blank for every character other than a line feed. -/
def Text.blanked (text : List Char) : List Char := text.map fun c => if c = '\n' then c else ' '

theorem Text.isBlank_of_mem_blanked {text : List Char} : ∀ c ∈ blanked text, isBlank c = true := by
  rw [blanked, List.forall_mem_map]
  intro c _
  by_cases hc : c = '\n'
  · rw [if_pos hc, hc]
    decide
  · rw [if_neg hc]
    decide

/-- Blanks in the place of a text end where the text ends. -/
theorem Text.Position.advance_blanked (p : Position) (text : List Char) :
    p.advance (blanked text) = p.advance text := by
  induction text generalizing p with
  | nil => rfl
  | cons c text ih =>
    have hnext : p.next (if c = '\n' then c else ' ') = p.next c := by
      by_cases hc : c = '\n' <;> simp [next, hc]
    have hstep : p.advance (blanked (c :: text)) = (p.next (if c = '\n' then c else ' ')).advance (blanked text) := rfl
    rw [hstep, hnext, ih]
    rfl

namespace Lexeme

/-- The text does not end inside a string, a line comment or a block comment. -/
def EndsOutside (text : List Char) : Prop :=
  ∀ l ∈ (lexemes text).getLast?, l.kind ≠ .string false ∧ l.kind ≠ .lineComment ∧ l.kind ≠ .blockComment false

instance (text : List Char) : Decidable (EndsOutside text) :=
  decidable_of_iff ((lexemes text).getLast?.all (fun l =>
    l.kind != .string false && l.kind != .lineComment && l.kind != .blockComment false) = true)
    (by cases h : (lexemes text).getLast? <;> simp [EndsOutside, h, and_assoc])

theorem EndsOutside.endsAt {text : List Char} (h : EndsOutside text) (c : Char) :
    ∀ l ∈ (lexemes text).getLast?, l.kind.EndsAt c := by
  intro l hl
  obtain ⟨hstring, hline, hblock⟩ := h l hl
  exact ⟨hblock, fun hk => (hk.elim hline hstring).elim⟩

/-- A comment that ends where `rest` begins: one from `#` or two slashes to the end of the line, or one between
slash-star and star-slash. -/
inductive CommentBefore (rest : List Char) : List Char → Prop
  | hash {x : List Char} : '\n' ∉ x → EndsLine rest → CommentBefore rest ('#' :: x)
  | slashes {x : List Char} : '\n' ∉ x → EndsLine rest → CommentBefore rest ('/' :: '/' :: x)
  | block {x : List Char} : NoClose x → CommentBefore rest ('/' :: '*' :: (x ++ ['*', '/']))

/-- A star behind a text closes nothing. -/
theorem NoClose.append_star {x : List Char} (h : NoClose x) : NoClose (x ++ ['*']) := by
  induction x with
  | nil => exact noClose_cons.mpr ⟨by simp, noClose_nil⟩
  | cons c x ih =>
    obtain ⟨hc, hx⟩ := noClose_cons.mp h
    refine noClose_cons.mpr ⟨?_, ih hx⟩
    cases x with
    | nil => simp
    | cons d x => exact hc

theorem CommentBefore.exists_stands {comment rest : List Char} (h : CommentBefore rest comment) :
    ∃ k, (k = .lineComment ∨ k = .blockComment true) ∧ Stands ⟨k, comment⟩ rest := by
  cases h with
  | hash hx hrest => exact ⟨_, .inl rfl, .hashComment hx hrest⟩
  | slashes hx hrest => exact ⟨_, .inl rfl, .slashComment hx hrest⟩
  | block hx => exact ⟨_, .inr rfl, .closedComment hx.append_star⟩

end Lexeme

namespace PlacedLexeme

section Read

variable {α : Type} {f : PlacedLexeme → Option α} (hf : Steady f)
include hf

theorem read_blanks {blanks : List Char} (h : ∀ c ∈ blanks, Text.isBlank c = true) (p : Text.Position)
    (rest : List Char) : read f p (blanks ++ rest) = read f (p.advance blanks) rest := by
  induction blanks generalizing p with
  | nil => rfl
  | cons c blanks ih =>
    obtain ⟨hc, hblanks⟩ := List.forall_mem_cons.mp h
    rw [List.cons_append, read_blank hf hc, ih hblanks]
    rfl

variable (hclosed : ∀ text p, f ⟨⟨.blockComment true, text⟩, p⟩ = none)
include hclosed

/-- Of a comment nothing is made but room. -/
theorem read_comment {comment rest : List Char} (h : Lexeme.CommentBefore rest comment) (p : Text.Position) :
    read f p (comment ++ rest) = read f (p.advance comment) rest := by
  obtain ⟨k, hk, hstands⟩ := h.exists_stands
  have hnone : f ⟨⟨k, comment⟩, p⟩ = none := by
    rcases hk with rfl | rfl
    · exact hf.lineComment comment p
    · exact hclosed comment p
  have hread := read_of_stands (f := f) hstands p
  rwa [hnone] at hread

/-- **The same is made of a text with blanks for a comment.** -/
theorem read_blanked {before comment after : List Char} (hbefore : Lexeme.EndsOutside before)
    (hcomment : Lexeme.CommentBefore after comment) (p : Text.Position) :
    read f p (before ++ ' ' :: (comment ++ after)) = read f p (before ++ ' ' :: (Text.blanked comment ++ after)) := by
  have hspace : Text.isBlank ' ' = true := by decide
  rw [read_append_blank hf hspace (hbefore.endsAt ' '), read_append_blank hf hspace (hbefore.endsAt ' '),
    read_comment hf hclosed hcomment, read_blanks hf Text.isBlank_of_mem_blanked, Text.Position.advance_blanked]

end Read

end PlacedLexeme

/-- **Comments are white space.** Blanks in the place of a comment give the same tokens in the same lines and columns,
the same diagnostics and the same rule, if the text before the comment ends outside strings and comments. -/
theorem ParsedRule.ofText_blanked {before comment after : List Char} (hbefore : Lexeme.EndsOutside before)
    (hcomment : Lexeme.CommentBefore after comment) :
    let commented := before ++ ' ' :: (comment ++ after)
    let blanked := before ++ ' ' :: (Text.blanked comment ++ after)
    Token.ofText commented = Token.ofText blanked ∧
      Token.diagnosticsOfText commented = Token.diagnosticsOfText blanked ∧ ofText commented = ofText blanked := by
  intro commented blanked
  have htokens : Token.ofText commented = Token.ofText blanked :=
    PlacedLexeme.read_blanked PlacedLexeme.steady_token? (fun _ _ => rfl) hbefore hcomment .start
  have hdiagnostics : Token.diagnosticsOfText commented = Token.diagnosticsOfText blanked :=
    PlacedLexeme.read_blanked PlacedLexeme.steady_diagnostic? (fun _ _ => rfl) hbefore hcomment .start
  refine ⟨htokens, hdiagnostics, ?_⟩
  rw [ofText, ofText, htokens, hdiagnostics]

/-- What a comment may hold: a statement over two lines, quotes, a backslash, and what begins or nearly ends a
comment. -/
def bustlingComment : List Char := "/*/ deny console \"\n * # // \\\" /* deny imports [ **/".toList

/-- A line with something in the middle. -/
def lineAround (middle : List Char) : List Char :=
  "location: \"a\\\"\" /".toList ++ ' ' :: (middle ++ " module M \x7b".toList)

theorem ParsedRule.ofText_blanked_bustlingComment :
    Lexeme.EndsOutside "location: \"a\\\"\" /".toList ∧ Lexeme.CommentBefore " module M \x7b".toList bustlingComment ∧
    Token.ofText (lineAround bustlingComment) = Token.ofText (lineAround (Text.blanked bustlingComment)) ∧
    Token.diagnosticsOfText (lineAround bustlingComment) =
      Token.diagnosticsOfText (lineAround (Text.blanked bustlingComment)) ∧
    ofText (lineAround bustlingComment) = ofText (lineAround (Text.blanked bustlingComment)) := by
  have hbefore : Lexeme.EndsOutside "location: \"a\\\"\" /".toList := by decide +kernel
  have hbody : Lexeme.NoClose "/ deny console \"\n * # // \\\" /* deny imports [ *".toList :=
    Lexeme.noClose_of_commentLength? (by decide)
  have hcomment : Lexeme.CommentBefore " module M \x7b".toList bustlingComment := .block hbody
  exact ⟨hbefore, hcomment, ofText_blanked hbefore hcomment⟩

end Conformance
