import Conformance.Rule.Token
import Conformance.Proofs.Rule.Lexeme

/-!
# The wording of a rule text

The wording of a text is what its tokens are, without where they stand (`map_unplaced_ofText`). It is found lexeme by
lexeme (`wording_of_stands`), and a line feed parts it unless a block comment is left open before it
(`wording_append_lineFeed`).

Tokens have the values that the grammar gives to their kind (`admits_of_mem`), and every value of an identifier occurs
(`isIdentValue_iff`).
-/

namespace Conformance

/-- The token that a lexeme gives, as if it stood at the start of a text. -/
def Lexeme.token? (l : Lexeme) : Option Token := (PlacedLexeme.mk l .start).token?

namespace Token

/-- The token as if it stood at the start of a text. -/
def unplaced (t : Token) : Token := { t with position := .start }

/-! ## Tokens by their values -/

def ident (value : String) : Token := ⟨.ident, value, .start⟩

def string (value : String) : Token := ⟨.string, value, .start⟩

def number (value : String) : Token := ⟨.number, value, .start⟩

def punct (value : String) : Token := ⟨.punct, value, .start⟩

section Values

variable (a b : String)

@[simp] theorem ident_kind : (ident a).kind = .ident := rfl

@[simp] theorem ident_value : (ident a).value = a := rfl

@[simp] theorem string_kind : (string a).kind = .string := rfl

@[simp] theorem string_value : (string a).value = a := rfl

@[simp] theorem number_kind : (number a).kind = .number := rfl

@[simp] theorem number_value : (number a).value = a := rfl

@[simp] theorem punct_kind : (punct a).kind = .punct := rfl

@[simp] theorem isIdent_ident : (ident a).isIdent b = (a == b) := rfl

@[simp] theorem isIdent_string : (string a).isIdent b = false := rfl

@[simp] theorem isIdent_number : (number a).isIdent b = false := rfl

@[simp] theorem isIdent_punct : (punct a).isIdent b = false := rfl

@[simp] theorem isPunct_ident : (ident a).isPunct b = false := rfl

@[simp] theorem isPunct_string : (string a).isPunct b = false := rfl

@[simp] theorem isPunct_number : (number a).isPunct b = false := rfl

@[simp] theorem isPunct_punct : (punct a).isPunct b = (a == b) := rfl

end Values

/-! ## Wordings -/

/-- The tokens of a text without their positions. -/
def wording (text : List Char) : List Token := (Lexeme.lexemes text).filterMap Lexeme.token?

theorem map_unplaced_token? (l : PlacedLexeme) : l.token?.map unplaced = l.lexeme.token? := by
  obtain ⟨⟨kind, text⟩, p⟩ := l
  cases kind <;> rfl

/-- Taking away the positions of the tokens of a text leaves its wording. -/
theorem map_unplaced_ofText (text : List Char) : (ofText text).map unplaced = wording text := by
  have hplace : ∀ p ls, ((PlacedLexeme.place p ls).filterMap (·.token?)).map unplaced =
      ls.filterMap Lexeme.token? := by
    intro p ls
    induction ls generalizing p with
    | nil => rfl
    | cons l ls ih =>
      rw [PlacedLexeme.place, List.filterMap_cons, List.filterMap_cons, ← map_unplaced_token? ⟨l, p⟩, ← ih]
      cases PlacedLexeme.token? ⟨l, p⟩ <;> rfl
  exact hplace _ _

/-- The first lexeme gives the first token, if it gives one. -/
theorem wording_of_stands {l : Lexeme} {rest : List Char} (h : l.Stands rest) :
    wording (l.text ++ rest) = l.token?.toList ++ wording rest := by
  rw [wording, Lexeme.lexemes_of_stands h, List.filterMap_cons]
  cases l.token? <;> rfl

theorem wording_nil : wording [] = [] := by rw [wording, Lexeme.lexemes_nil]; rfl

section First

variable {rest : List Char}

theorem wording_blank {c : Char} (h : Text.isBlank c = true) : wording (c :: rest) = wording rest :=
  wording_of_stands (.blank h)

theorem wording_mark {c : Char} (h : Lexeme.isMark c = true) :
    wording (c :: rest) = punct (.ofList [c]) :: wording rest :=
  wording_of_stands (.mark h)

theorem wording_word {w : List Char} (h : Lexeme.IsWord w) (hr : Lexeme.EndsWord rest) :
    wording (w ++ rest) = ident (.ofList w) :: wording rest :=
  wording_of_stands (.word h hr)

theorem wording_number {w : List Char} (h : Lexeme.IsNumber w) (hr : Lexeme.EndsWord rest) :
    wording (w ++ rest) = number (.ofList w) :: wording rest :=
  wording_of_stands (.number h hr)

theorem wording_string {body value : List Char} (h : Lexeme.Spells true body value) :
    wording ('"' :: (body ++ '"' :: rest)) = string (.ofList value) :: wording rest := by
  have hstands : Lexeme.Stands ⟨.string true, '"' :: (body ++ ['"'])⟩ rest := .closedString h
  have hfirst := wording_of_stands hstands
  rw [List.cons_append, List.append_assoc, List.singleton_append] at hfirst
  rw [hfirst]
  simp [Lexeme.token?, PlacedLexeme.token?, Lexeme.body, h.unescape_eq, string]

end First

/-! ## Values of tokens -/

/-- Whether a token of the kind can have the value. -/
def Kind.Admits : Kind → String → Prop
  | .ident, value => Lexeme.IsWord value.toList
  | .number, value => Lexeme.IsNumber value.toList
  | .punct, value => ∃ c, Lexeme.isMark c = true ∧ value.toList = [c]
  | .string, _ => True

/-- A token of a text comes from a lexeme of the grammar. -/
theorem exists_lexeme {text : List Char} {t : Token} (h : t ∈ ofText text) :
    ∃ (l : Lexeme) (rest : List Char), l.Stands rest ∧ l.token? = some t.unplaced := by
  have hmem : t.unplaced ∈ wording text := map_unplaced_ofText text ▸ List.mem_map_of_mem h
  obtain ⟨l, hl, ht⟩ := List.mem_filterMap.mp hmem
  obtain ⟨rest, hs⟩ := (Lexeme.cut_lexemes text).exists_stands l hl
  exact ⟨l, rest, hs, ht⟩

/-- What the token of a lexeme of the grammar can be. -/
theorem admits_of_stands {l : Lexeme} {rest : List Char} {t : Token} (hs : l.Stands rest) (ht : l.token? = some t) :
    t.kind.Admits t.value := by
  cases hs with
  | blank => cases ht
  | hashComment => cases ht
  | slashComment => cases ht
  | closedComment => cases ht
  | openComment => cases ht
  | closedString =>
    obtain rfl := Option.some.inj ht
    trivial
  | openString =>
    obtain rfl := Option.some.inj ht
    trivial
  | number h =>
    obtain rfl := Option.some.inj ht
    simpa [Kind.Admits] using h
  | word h =>
    obtain rfl := Option.some.inj ht
    simpa [Kind.Admits] using h
  | @mark c _ h =>
    obtain rfl := Option.some.inj ht
    exact ⟨c, h, String.toList_ofList⟩
  | stray => cases ht

/-- **The value of a token is one of its kind.** -/
theorem admits_of_mem {text : List Char} {t : Token} (h : t ∈ ofText text) : t.kind.Admits t.value := by
  obtain ⟨l, rest, hs, ht⟩ := exists_lexeme h
  exact (admits_of_stands hs ht : t.unplaced.kind.Admits t.unplaced.value)

theorem isWord_of_mem {text : List Char} {t : Token} (h : t ∈ ofText text) (hk : t.kind = .ident) :
    Lexeme.IsWord t.value.toList := by
  have hadmits := admits_of_mem h
  rwa [hk] at hadmits

theorem isNumber_of_mem {text : List Char} {t : Token} (h : t ∈ ofText text) (hk : t.kind = .number) :
    Lexeme.IsNumber t.value.toList := by
  have hadmits := admits_of_mem h
  rwa [hk] at hadmits

theorem value_ne_empty {text : List Char} {t : Token} (h : t ∈ ofText text) (hk : t.kind = .ident) :
    t.value ≠ "" := by
  intro hv
  obtain ⟨hne, -⟩ := isWord_of_mem h hk
  simp [hv] at hne

/-- Whether a text has an identifier of this value. -/
def IsIdentValue (value : String) : Prop := ∃ text, ∃ t ∈ ofText text, t.kind = .ident ∧ t.value = value

theorem isIdentValue_iff {value : String} : IsIdentValue value ↔ Lexeme.IsWord value.toList := by
  constructor
  · rintro ⟨text, t, ht, hk, rfl⟩
    exact isWord_of_mem ht hk
  · intro h
    have hwording : (ofText value.toList).map unplaced = [ident value] := by
      rw [map_unplaced_ofText, ← List.append_nil value.toList, wording_word h (by simp [Lexeme.EndsWord]), wording_nil,
        String.ofList_toList]
    have hmem : ident value ∈ (ofText value.toList).map unplaced := by simp [hwording]
    obtain ⟨t, ht, heq⟩ := List.mem_map.mp hmem
    exact ⟨_, t, ht, congrArg kind heq, congrArg Token.value heq⟩

/-! ## Line feeds -/

/-- Whether no block comment of a text is left open. -/
def ClosesComments (text : List Char) : Prop := ∀ d ∈ diagnosticsOfText text, d.problem ≠ .unclosedComment

instance (text : List Char) : Decidable (ClosesComments text) :=
  decidable_of_iff ((diagnosticsOfText text).all (·.problem != .unclosedComment) = true) (by simp [ClosesComments])

theorem ClosesComments.kind_ne {text : List Char} (h : ClosesComments text) :
    ∀ l ∈ Lexeme.lexemes text, l.kind ≠ .blockComment false := by
  have hplace : ∀ p ls, ∀ l ∈ ls, ∃ q, ⟨l, q⟩ ∈ PlacedLexeme.place p ls := by
    intro p ls
    induction ls generalizing p with
    | nil => simp
    | cons l ls ih =>
      refine List.forall_mem_cons.mpr ⟨⟨p, List.mem_cons_self⟩, fun k hk => ?_⟩
      obtain ⟨q, hq⟩ := ih (p.advance l.text) k hk
      exact ⟨q, List.mem_cons_of_mem _ hq⟩
  intro l hl hk
  obtain ⟨q, hq⟩ := hplace .start _ l hl
  have hd : PlacedLexeme.diagnostic? ⟨l, q⟩ = some ⟨q, .unclosedComment⟩ := by
    simp [PlacedLexeme.diagnostic?, PlacedLexeme.problem?, hk]
  exact h _ (List.mem_filterMap.mpr ⟨_, hq, hd⟩) rfl

/-- **A line feed parts the wording**, unless it stands inside a block comment. -/
theorem wording_append_lineFeed {text : List Char} (h : ClosesComments text) (after : List Char) :
    wording (text ++ '\n' :: after) = wording text ++ wording after := by
  rw [wording, Lexeme.lexemes_append_lineFeed after h.kind_ne, List.filterMap_append]
  congr 1
  exact wording_blank (by decide)

/-- Text on later lines takes no token back, not even if a block comment is left open. -/
theorem exists_wording_append (text after : List Char) :
    ∃ more, wording (text ++ '\n' :: after) = wording text ++ more := by
  have hcut : ∀ ls, Lexeme.Cut text ls →
      ∃ more, wording (text ++ '\n' :: after) = ls.filterMap Lexeme.token? ++ more := by
    intro ls h
    induction h with
    | nil => exact ⟨_, rfl⟩
    | @cons l rest ls hl hls ih =>
      by_cases hk : l.kind = .blockComment false
      · have hnone : l.token? = none := by simp [Lexeme.token?, PlacedLexeme.token?, hk]
        obtain rfl : rest = [] := by cases hl <;> simp_all
        have hnil : ls = [] := (Lexeme.lexemes_eq_iff.mpr hls).symm.trans Lexeme.lexemes_nil
        exact ⟨_, by simp [hnone, hnil]; rfl⟩
      · obtain ⟨more, hmore⟩ := ih
        refine ⟨more, ?_⟩
        rw [List.append_assoc, wording_of_stands (hl.before_lineFeed hk after), hmore, List.filterMap_cons]
        cases l.token? <;> rfl
  exact hcut _ (Lexeme.cut_lexemes text)

end Token

end Conformance
