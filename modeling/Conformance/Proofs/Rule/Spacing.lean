import Conformance.Proofs.Rule.Clean
import Conformance.Proofs.Rule.Writing

/-!
# Token lists written with spaces

Tokens can be written one after the other with a space between them, strings in quotes. The text is cut into the lexemes
of the tokens again (`Token.lexemes_spaced`), so it is read without a problem as the tokens that it writes, if each of
them has a value of its kind (`Token.readings_spaced`).
-/

namespace Conformance

namespace Token

/-- What a token says, wherever it stands. -/
def said (t : Token) : Kind × String := (t.kind, t.value)

/-- How a token of the kind is written. -/
def Kind.spell : Kind → String → List Char
  | .string, value => Lexeme.quote value
  | _, value => value.toList

/-- The text that writes tokens with single spaces between them. -/
def spaced (ps : List (Kind × String)) : List Char := List.intercalate [' '] (ps.map fun p => p.1.spell p.2)

/-! ## Lexemes -/

/-- The kind of lexeme that gives tokens of this kind. -/
def Kind.lexemeKind : Kind → Lexeme.Kind
  | .ident => .word
  | .string => .string true
  | .number => .number
  | .punct => .mark

/-- The lexeme that writes a token. -/
def lexeme (p : Kind × String) : Lexeme := ⟨p.1.lexemeKind, p.1.spell p.2⟩

section

variable {p : Kind × String} {ps : List (Kind × String)}

theorem stands_lexeme (h : p.1.Admits p.2) {rest : List Char} (hr : Lexeme.EndsWord rest) :
    (lexeme p).Stands rest := by
  obtain ⟨kind, value⟩ := p
  cases kind with
  | ident => exact .word h hr
  | string => exact .closedString (spells_escape value.toList)
  | number => exact .number h hr
  | punct =>
    obtain ⟨c, hc, hvalue⟩ := h
    have hlexeme : lexeme (.punct, value) = ⟨.mark, [c]⟩ := congrArg (Lexeme.mk .mark) hvalue
    rw [hlexeme]
    exact .mark hc

theorem token?_lexeme (p : Kind × String) : (lexeme p).token?.map said = some p := by
  obtain ⟨kind, value⟩ := p
  have hvalue : String.ofList value.toList = value := String.ofList_toList
  have hbody : (lexeme (.string, value)).body = value.toList.flatMap Lexeme.escape := List.dropLast_concat
  have hdecoded : String.ofList (Lexeme.unescape (lexeme (.string, value)).body) = value := by
    rw [hbody, (spells_escape value.toList).unescape_eq, hvalue]
  cases kind with
  | string => exact congrArg (fun value => some (Kind.string, value)) hdecoded
  | ident => exact congrArg (fun value => some (Kind.ident, value)) hvalue
  | number => exact congrArg (fun value => some (Kind.number, value)) hvalue
  | punct => exact congrArg (fun value => some (Kind.punct, value)) hvalue

theorem spaced_cons_cons (p q : Kind × String) (ps : List (Kind × String)) :
    spaced (p :: q :: ps) = (lexeme p).text ++ ' ' :: spaced (q :: ps) := by
  simp [spaced, lexeme]

/-- **The text is cut at the spaces** into the lexemes that write the tokens. -/
theorem lexemes_spaced (h : ∀ p ∈ ps, p.1.Admits p.2) :
    Lexeme.lexemes (spaced ps) = (ps.map lexeme).intersperse ⟨.blank, [' ']⟩ := by
  have hspace : ∀ rest, Lexeme.Stands ⟨.blank, [' ']⟩ rest := fun _ => .blank (by decide)
  induction ps with
  | nil => exact Lexeme.lexemes_nil
  | cons p ps ih =>
    obtain ⟨hp, hps⟩ := List.forall_mem_cons.mp h
    cases ps with
    | nil =>
      have hend : Lexeme.EndsWord [] := by simp [Lexeme.EndsWord]
      have hfirst := Lexeme.lexemes_of_stands (stands_lexeme hp hend)
      rw [Lexeme.lexemes_nil] at hfirst
      simpa [spaced, lexeme] using hfirst
    | cons q ps =>
      have hend : Lexeme.EndsWord (' ' :: spaced (q :: ps)) := endsWord_cons (by decide)
      have hfirst := Lexeme.lexemes_of_stands (stands_lexeme hp hend)
      have hrest := Lexeme.lexemes_of_stands (hspace (spaced (q :: ps)))
      rw [List.singleton_append] at hrest
      rw [spaced_cons_cons, hfirst, hrest, ih hps]
      rfl

end

/-! ## Reading what is written -/

/-- A separator that gives nothing does not matter. -/
theorem filterMap_intersperse {α β : Type} {f : α → Option β} {sep : α} (hsep : f sep = none) (xs : List α) :
    (xs.intersperse sep).filterMap f = xs.filterMap f := by
  induction xs with
  | nil => rfl
  | cons x xs ih =>
    cases xs with
    | nil => rfl
    | cons y ys =>
      rw [List.intersperse_cons_cons, List.filterMap_cons, List.filterMap_cons, hsep, ih, List.filterMap_cons (a := x)]

theorem eq_or_mem_of_mem_intersperse {α : Type} {sep x : α} {xs : List α} (h : x ∈ xs.intersperse sep) :
    x = sep ∨ x ∈ xs := by
  induction xs with
  | nil => exact .inr h
  | cons y ys ih =>
    cases ys with
    | nil => exact .inr h
    | cons z zs =>
      rw [List.intersperse_cons_cons] at h
      rcases List.mem_cons.mp h with rfl | h
      · exact .inr List.mem_cons_self
      rcases List.mem_cons.mp h with rfl | h
      · exact .inl rfl
      · exact (ih h).imp_right (List.mem_cons_of_mem y)

theorem map_said_ofText (text : List Char) :
    (ofText text).map said = (Lexeme.lexemes text).filterMap fun l => l.token?.map said := by
  have hsaid : said = said ∘ unplaced := rfl
  rw [hsaid, ← List.map_map, map_unplaced_ofText, wording, List.map_filterMap]
  rfl

theorem ofText_spaced {ps : List (Kind × String)} (h : ∀ p ∈ ps, p.1.Admits p.2) :
    (ofText (spaced ps)).map said = ps := by
  rw [map_said_ofText, lexemes_spaced h, filterMap_intersperse rfl, List.filterMap_map]
  have hlexemes : (fun l => l.token?.map said) ∘ lexeme = some := funext token?_lexeme
  rw [hlexemes, List.filterMap_some]

theorem diagnosticsOfText_spaced {ps : List (Kind × String)} (h : ∀ p ∈ ps, p.1.Admits p.2) :
    diagnosticsOfText (spaced ps) = [] := by
  rw [diagnosticsOfText_eq_nil_iff, lexemes_spaced h]
  intro l hl
  rcases eq_or_mem_of_mem_intersperse hl with rfl | hl
  · rfl
  · obtain ⟨⟨kind, value⟩, -, rfl⟩ := List.mem_map.mp hl
    cases kind <;> rfl

/-- **What tokens can be.** Every token of a text has a value of its kind, and every list of tokens with such values is
read without a problem from the text that writes it with spaces. -/
theorem readings_spaced :
    (∀ text, ∀ t ∈ ofText text, t.kind.Admits t.value) ∧
      ∀ ps : List (Kind × String), (∀ p ∈ ps, p.1.Admits p.2) →
        (ofText (spaced ps)).map said = ps ∧ diagnosticsOfText (spaced ps) = [] :=
  ⟨fun _ _ => admits_of_mem, fun _ h => ⟨ofText_spaced h, diagnosticsOfText_spaced h⟩⟩

/-- Tokens that need care: an identifier that begins with a digit, one of a digit that is not ASCII, one of stars and
dashes, a number that begins with zeros, a mark, and a string with quotes, backslashes and a line feed. -/
def oddTokens : List (Kind × String) :=
  [(.ident, "1a"), (.ident, "٣"), (.ident, "*-"), (.number, "007"), (.punct, "\x7b"), (.string, "\\\"\n\\n #")]

theorem readings_spaced_oddTokens : Token.ident "1a" ∈ ofText "1a".toList ∧ Kind.ident.Admits "1a" ∧
    (ofText (spaced oddTokens)).map said = oddTokens ∧ diagnosticsOfText (spaced oddTokens) = [] := by
  have hmem : Token.ident "1a" ∈ ofText "1a".toList := by decide +kernel
  have hmark : Kind.punct.Admits "\x7b" := ⟨'\x7b', by decide, rfl⟩
  have hadmits : ∀ p ∈ oddTokens, p.1.Admits p.2 := by
    simp only [oddTokens, List.forall_mem_cons]
    exact ⟨(by decide : Lexeme.IsWord "1a".toList), (by decide : Lexeme.IsWord "٣".toList),
      (by decide : Lexeme.IsWord "*-".toList), ⟨by decide, List.all_eq_true.mp (by decide)⟩, hmark, trivial, by simp⟩
  exact ⟨hmem, readings_spaced.1 _ _ hmem, readings_spaced.2 _ hadmits⟩

end Token

end Conformance
