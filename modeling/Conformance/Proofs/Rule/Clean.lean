import Conformance.Proofs.Rule.Shape
import Conformance.Proofs.Rule.Tiling

/-!
# Rule texts without problems

A rule text is read without a problem iff its characters and its statements are in order
(`ParsedRule.diagnostics_eq_nil_iff`): no character is stray, every string and block comment is closed, and every key
word is followed by what its statement requires (`Statement.Complete`).

Each kind of statement has one lemma that says when it is read without a problem (`readModule_problems`, …); they are
put together for one token (`read_problems_eq_nil_iff`) and then for all tokens, each with those behind it
(`readings_problems_eq_nil_iff`).
-/

namespace Conformance

/-! ## What statements require -/

namespace Statement

/-- The tokens start with one of a kind. -/
def StartsWith (kind : Token.Kind) (ts : List Token) : Prop := ∃ first more, ts = first :: more ∧ first.kind = kind

/-- Strings and commas up to a closing bracket. -/
def ClosesList (ts : List Token) : Prop :=
  ∃ body closing more, ts = body ++ closing :: more ∧ (∀ t ∈ body, t.kind = .string ∨ t.isPunct "," = true) ∧
    closing.isPunct "]" = true

/-- A pattern list in brackets. -/
def StartsWithList (ts : List Token) : Prop :=
  ∃ opening more, ts = opening :: more ∧ opening.isPunct "[" = true ∧ ClosesList more

/-- A greater-than sign and a number of at most 18 digits. -/
def StartsWithLimit (ts : List Token) : Prop :=
  ∃ op limit more, ts = op :: limit :: more ∧ op.isPunct ">" = true ∧ limit.kind = .number ∧ limit.value.length ≤ 18

/-- What the target of a denial requires of itself and of the tokens after it. -/
structure CompleteDenial (target : String) (after : List Token) : Prop where
  list : target = "imports" ∨ target = "exports" → StartsWithList after
  limit : "file.".toList <+: target.toList → target = "file.lines" ∧ StartsWithLimit after
  operation : target ≠ "imports" → target ≠ "exports" → ¬ "file.".toList <+: target.toList →
    ∃ o : Operation, o.target = target

/-- What a key word requires of the tokens after it. Other tokens require nothing. -/
structure Complete (key : Token) (after : List Token) : Prop where
  name : key.isIdent "module" = true → StartsWith .ident after
  setting : key.isIdent "location" = true ∨ key.isIdent "type" = true →
    ∀ colon more, after = colon :: more → colon.isPunct ":" = true → StartsWith .string more
  pattern : key.isIdent "allow" = true → StartsWith .string after
  denial : key.isIdent "deny" = true →
    ∃ target more, after = target :: more ∧ target.kind = .ident ∧ CompleteDenial target.value more

/-! ## One statement -/

section Heads

variable {t : Token} {ts : List Token}

theorem not_startsWith_nil (kind : Token.Kind) : ¬ StartsWith kind [] := by
  rintro ⟨first, more, h, -⟩
  cases h

theorem startsWith_cons {kind : Token.Kind} : StartsWith kind (t :: ts) ↔ t.kind = kind := by
  constructor
  · rintro ⟨first, more, h, hk⟩
    obtain ⟨rfl, rfl⟩ := List.cons.inj h
    exact hk
  · exact fun hk => ⟨t, ts, rfl, hk⟩

theorem not_closesList_nil : ¬ ClosesList [] := by
  rintro ⟨body, closing, more, h, -⟩
  simp at h

/-- A list goes on after a string or a comma, and ends at a closing bracket. -/
theorem closesList_cons :
    ClosesList (t :: ts) ↔ t.isPunct "]" = true ∨ (t.kind = .string ∨ t.isPunct "," = true) ∧ ClosesList ts := by
  constructor
  · rintro ⟨body, closing, more, h, hbody, hclosing⟩
    cases body with
    | nil =>
      obtain ⟨rfl, rfl⟩ := List.cons.inj h
      exact .inl hclosing
    | cons b body =>
      obtain ⟨rfl, rfl⟩ := List.cons.inj h
      obtain ⟨hb, hbody⟩ := List.forall_mem_cons.mp hbody
      exact .inr ⟨hb, body, closing, more, rfl, hbody, hclosing⟩
  · rintro (hclosing | ⟨ht, body, closing, more, rfl, hbody, hclosing⟩)
    · exact ⟨[], t, ts, rfl, by simp, hclosing⟩
    · exact ⟨t :: body, closing, more, rfl, List.forall_mem_cons.mpr ⟨ht, hbody⟩, hclosing⟩

theorem not_startsWithList_nil : ¬ StartsWithList [] := by
  rintro ⟨opening, more, h, -⟩
  cases h

theorem startsWithList_cons : StartsWithList (t :: ts) ↔ t.isPunct "[" = true ∧ ClosesList ts := by
  constructor
  · rintro ⟨opening, more, h, hopening, hmore⟩
    obtain ⟨rfl, rfl⟩ := List.cons.inj h
    exact ⟨hopening, hmore⟩
  · exact fun ⟨hopening, hmore⟩ => ⟨t, ts, rfl, hopening, hmore⟩

theorem startsWithLimit_cons {limit : Token} : StartsWithLimit (t :: limit :: ts) ↔
    t.isPunct ">" = true ∧ limit.kind = .number ∧ limit.value.length ≤ 18 := by
  constructor
  · rintro ⟨op, limit', more, h, hlimit⟩
    obtain ⟨rfl, rfl, rfl⟩ : t = op ∧ limit = limit' ∧ ts = more := by simpa using h
    exact hlimit
  · exact fun hlimit => ⟨t, limit, ts, rfl, hlimit⟩

theorem startsWithLimit_short (h : ts.length < 2) : ¬ StartsWithLimit ts := by
  rintro ⟨op, limit, more, rfl, -⟩
  simp only [List.length_cons] at h
  omega

end Heads

theorem readModule_problems (key : Token) (after : List Token) :
    (readModule key after).problems = [] ↔ StartsWith .ident after := by
  cases after with
  | nil => simp [readModule, Reading.fails, not_startsWith_nil]
  | cons name more =>
    rw [startsWith_cons, readModule]
    by_cases hk : name.kind = .ident
    · by_cases hb : more.head?.any (·.isPunct "\x7b") = true <;> simp [hk, hb, Reading.gives]
    · simp [hk, Reading.fails]

theorem readSetting_problems (key : Token) (after : List Token) (use : String → Option Statement) :
    (readSetting key after use).problems = [] ↔
      ∀ colon more, after = colon :: more → colon.isPunct ":" = true → StartsWith .string more := by
  rcases after with - | ⟨colon, - | ⟨value, more⟩⟩
  · simp [readSetting]
  · by_cases hc : colon.isPunct ":" = true <;> simp [readSetting, Reading.fails, hc, not_startsWith_nil]
  · by_cases hc : colon.isPunct ":" = true <;> by_cases hv : value.kind = .string <;>
      simp [readSetting, Reading.fails, hc, hv, startsWith_cons]

theorem readAllow_problems (key : Token) (after : List Token) :
    (readAllow key after).problems = [] ↔ StartsWith .string after := by
  cases after with
  | nil => simp [readAllow, Reading.fails, not_startsWith_nil]
  | cons pattern more =>
    by_cases hk : pattern.kind = .string <;> simp [readAllow, Reading.fails, Reading.gives, hk, startsWith_cons]

theorem readAt_problems (after : List Token) : (readAt after).problems = [] := by
  cases after with
  | nil => rfl
  | cons note more =>
    rw [readAt]
    split <;> rfl

/-- The induction is on the tokens after the bracket: each either ends the list, well or badly, or belongs to it. -/
theorem readPatterns_problems (opening : Token) (ts : List Token) :
    (readPatterns opening ts).2 = [] ↔ ClosesList ts := by
  induction ts with
  | nil => simp [readPatterns, not_closesList_nil]
  | cons t ts ih =>
    rw [closesList_cons, ← ih, readPatterns]
    by_cases hclosing : t.isPunct "]" = true
    · simp [hclosing]
    · by_cases hk : t.kind = .string
      · simp [hclosing, hk]
      · by_cases hcomma : t.isPunct "," = true <;> simp [hclosing, hk, hcomma]

theorem readPatternList_problems (target : Token) (after : List Token) (use : List String → Statement) :
    (readPatternList target after use).problems = [] ↔ StartsWithList after := by
  cases after with
  | nil => simp [readPatternList, Reading.fails, not_startsWithList_nil]
  | cons opening more =>
    rw [startsWithList_cons, ← readPatterns_problems opening, readPatternList]
    by_cases ho : opening.isPunct "[" = true <;> simp [ho, Reading.fails]

theorem readFileLimit_problems (target : Token) (after : List Token) :
    (readFileLimit target after).problems = [] ↔ target.value = "file.lines" ∧ StartsWithLimit after := by
  by_cases ht : target.value = "file.lines"
  swap
  · simp [readFileLimit, ht, Reading.fails]
  rcases after with - | ⟨op, - | ⟨limit, more⟩⟩
  · simp [readFileLimit, ht, Reading.fails, startsWithLimit_short]
  · simp [readFileLimit, ht, Reading.fails, startsWithLimit_short]
  · rw [startsWithLimit_cons]
    by_cases hop : op.isPunct ">" = true
    · by_cases hk : limit.kind = .number
      · by_cases hl : limit.value.length ≤ 18 <;>
          simp [readFileLimit, longestLimit, ht, hop, hk, hl, Reading.fails, Reading.gives]
      · simp [readFileLimit, ht, hop, hk, Reading.fails]
    · simp [readFileLimit, ht, hop, Reading.fails]

end Statement

theorem Operation.isSome_ofTarget?_iff {target : String} :
    (ofTarget? target).isSome = true ↔ ∃ o : Operation, o.target = target := by
  have hall : ∀ o, o ∈ all := by
    intro o
    cases o <;> decide
  simp only [ofTarget?, List.find?_isSome, beq_iff_eq, hall, true_and]

/-- No family of operations is written like imports, exports or files. -/
theorem Operation.isReserved_target (o : Operation) : Statement.isReserved o.target = false := by
  cases o <;> decide +kernel

namespace Statement

/-- A denial of an operation is in order iff the operation is known. -/
theorem readDeny_operation {target : Token} (key : Token) (more : List Token) (hk : target.kind = .ident)
    (hi : target.value ≠ "imports") (he : target.value ≠ "exports") (hf : ¬ "file.".toList <+: target.value.toList) :
    (readDeny key (target :: more)).problems = [] ↔ ∃ o : Operation, o.target = target.value := by
  have hf' : ¬ "file.".toList.isPrefixOf target.value.toList = true := mt List.isPrefixOf_iff_prefix.mp hf
  rw [readDeny, if_pos hk, if_neg hi, if_neg he, if_neg hf', ← Operation.isSome_ofTarget?_iff]
  cases hr : isReserved target.value with
  | true =>
    have hnone : ¬ (Operation.ofTarget? target.value).isSome = true := by
      rw [Operation.isSome_ofTarget?_iff]
      rintro ⟨o, ho⟩
      rw [← ho, o.isReserved_target] at hr
      cases hr
    simp [Reading.fails, hnone]
  | false => cases Operation.ofTarget? target.value <;> simp

theorem readDeny_problems (key : Token) (after : List Token) : (readDeny key after).problems = [] ↔
    ∃ target more, after = target :: more ∧ target.kind = .ident ∧ CompleteDenial target.value more := by
  cases after with
  | nil => simp [readDeny, Reading.fails]
  | cons target more =>
    have hcons : (∃ target' more', target :: more = target' :: more' ∧ target'.kind = .ident ∧
        CompleteDenial target'.value more') ↔ target.kind = .ident ∧ CompleteDenial target.value more := by
      simp
    rw [hcons]
    by_cases hk : target.kind = .ident
    swap
    · simp [readDeny, hk, Reading.fails]
    rw [and_iff_right hk]
    by_cases hi : target.value = "imports"
    · rw [readDeny, if_pos hk, if_pos hi, readPatternList_problems]
      have hf : ¬ "file.".toList <+: target.value.toList := by rw [hi]; decide
      exact ⟨fun h => ⟨fun _ => h, fun h' => absurd h' hf, fun h' => absurd hi h'⟩, fun h => h.list (.inl hi)⟩
    by_cases he : target.value = "exports"
    · rw [readDeny, if_pos hk, if_neg hi, if_pos he, readPatternList_problems]
      have hf : ¬ "file.".toList <+: target.value.toList := by rw [he]; decide
      exact ⟨fun h => ⟨fun _ => h, fun h' => absurd h' hf, fun _ h' => absurd he h'⟩, fun h => h.list (.inr he)⟩
    by_cases hf : "file.".toList <+: target.value.toList
    · rw [readDeny, if_pos hk, if_neg hi, if_neg he, if_pos (List.isPrefixOf_iff_prefix.mpr hf),
        readFileLimit_problems]
      exact ⟨fun h => ⟨fun h' => absurd h' (not_or_intro hi he), fun _ => h, fun _ _ h' => absurd hf h'⟩,
        fun h => h.limit hf⟩
    · rw [readDeny_operation key more hk hi he hf]
      exact ⟨fun h => ⟨fun h' => absurd h' (not_or_intro hi he), fun h' => absurd h' hf, fun _ _ _ => h⟩,
        fun h => h.operation hi he hf⟩

/-! ## All statements -/

/-- Tokens that are no key words require nothing. -/
theorem complete_of_not_key {t : Token} {ts : List Token} (hmodule : ¬ t.isIdent "module" = true)
    (hlocation : ¬ t.isIdent "location" = true) (htype : ¬ t.isIdent "type" = true)
    (hallow : ¬ t.isIdent "allow" = true) (hdeny : ¬ t.isIdent "deny" = true) : Complete t ts :=
  ⟨fun h => absurd h hmodule, fun h => absurd h (not_or_intro hlocation htype), fun h => absurd h hallow,
    fun h => absurd h hdeny⟩

/-- **A token is read without a problem iff what it requires follows.** -/
theorem read_problems_eq_nil_iff {t : Token} {ts : List Token} : (read t ts).problems = [] ↔ Complete t ts := by
  by_cases hmodule : t.isIdent "module" = true
  · have hne := fun b => t.isIdent_of_ne (b := b) hmodule
    rw [read, if_pos hmodule, readModule_problems]
    exact ⟨fun h => ⟨fun _ => h, by simp [hne], by simp [hne], by simp [hne]⟩, fun h => h.name hmodule⟩
  by_cases hlocation : t.isIdent "location" = true
  · have hne := fun b => t.isIdent_of_ne (b := b) hlocation
    rw [read, if_neg hmodule, if_pos hlocation, readSetting_problems]
    exact ⟨fun h => ⟨by simp [hne], fun _ => h, by simp [hne], by simp [hne]⟩, fun h => h.setting (.inl hlocation)⟩
  by_cases htype : t.isIdent "type" = true
  · have hne := fun b => t.isIdent_of_ne (b := b) htype
    rw [read, if_neg hmodule, if_neg hlocation, if_pos htype, readSetting_problems]
    exact ⟨fun h => ⟨by simp [hne], fun _ => h, by simp [hne], by simp [hne]⟩, fun h => h.setting (.inr htype)⟩
  by_cases hallow : t.isIdent "allow" = true
  · have hne := fun b => t.isIdent_of_ne (b := b) hallow
    rw [read, if_neg hmodule, if_neg hlocation, if_neg htype, if_pos hallow, readAllow_problems]
    exact ⟨fun h => ⟨by simp [hne], by simp [hne], fun _ => h, by simp [hne]⟩, fun h => h.pattern hallow⟩
  by_cases hdeny : t.isIdent "deny" = true
  · have hne := fun b => t.isIdent_of_ne (b := b) hdeny
    rw [read, if_neg hmodule, if_neg hlocation, if_neg htype, if_neg hallow, if_pos hdeny, readDeny_problems]
    exact ⟨fun h => ⟨by simp [hne], by simp [hne], by simp [hne], fun _ => h⟩, fun h => h.denial hdeny⟩
  have hcomplete : Complete t ts := complete_of_not_key hmodule hlocation htype hallow hdeny
  rw [read, if_neg hmodule, if_neg hlocation, if_neg htype, if_neg hallow, if_neg hdeny]
  refine iff_of_true ?_ hcomplete
  split
  · exact readAt_problems ts
  · rfl

/-- Every token is followed by what it requires. -/
def AllComplete (ts : List Token) : Prop := ∀ before key after, ts = before ++ key :: after → Complete key after

theorem allComplete_cons {t : Token} {ts : List Token} : AllComplete (t :: ts) ↔ Complete t ts ∧ AllComplete ts := by
  constructor
  · intro h
    refine ⟨h [] t ts rfl, fun before key after hts => ?_⟩
    exact h (t :: before) key after (congrArg (t :: ·) hts)
  · rintro ⟨ht, hts⟩ before key after h
    cases before with
    | nil =>
      obtain ⟨rfl, rfl⟩ := List.cons.inj h
      exact ht
    | cons b before => exact hts before key after (List.cons.inj h).2

/-- **Tokens are read without a problem iff each is followed by what it requires.** -/
theorem readings_problems_eq_nil_iff {ts : List Token} :
    (readings ts).flatMap (·.problems) = [] ↔ AllComplete ts := by
  induction ts with
  | nil => simp [readings, AllComplete]
  | cons t ts ih =>
    rw [readings, List.flatMap_cons, List.append_eq_nil_iff, read_problems_eq_nil_iff, ih, allComplete_cons]

end Statement

/-! ## Texts -/

/-- The kinds of lexemes that are problems in themselves. -/
def Lexeme.Kind.isProblem : Lexeme.Kind → Bool
  | .stray => true
  | .string closed => !closed
  | .blockComment closed => !closed
  | _ => false

theorem PlacedLexeme.diagnostic?_eq_none_iff {l : PlacedLexeme} (h : l.lexeme.text ≠ []) :
    l.diagnostic? = none ↔ l.lexeme.kind.isProblem = false := by
  obtain ⟨⟨kind, text⟩, p⟩ := l
  cases kind with
  | stray => simp [diagnostic?, problem?, Lexeme.Kind.isProblem, h]
  | string closed => cases closed <;> simp [diagnostic?, problem?, Lexeme.Kind.isProblem]
  | blockComment closed => cases closed <;> simp [diagnostic?, problem?, Lexeme.Kind.isProblem]
  | blank => exact iff_of_true rfl rfl
  | lineComment => exact iff_of_true rfl rfl
  | number => exact iff_of_true rfl rfl
  | word => exact iff_of_true rfl rfl
  | mark => exact iff_of_true rfl rfl

theorem PlacedLexeme.map_lexeme_place (p : Text.Position) (ls : List Lexeme) :
    (place p ls).map (·.lexeme) = ls := by
  induction ls generalizing p with
  | nil => rfl
  | cons l ls ih => rw [place, List.map_cons, ih]

/-- A text is cut into tokens without a problem iff no character is stray and nothing is left open. -/
theorem Token.diagnosticsOfText_eq_nil_iff {text : List Char} :
    diagnosticsOfText text = [] ↔ ∀ l ∈ Lexeme.lexemes text, l.kind.isProblem = false := by
  have hlexemes : (PlacedLexeme.ofText text).map (·.lexeme) = Lexeme.lexemes text := PlacedLexeme.map_lexeme_place _ _
  rw [diagnosticsOfText, List.filterMap_eq_nil_iff, ← hlexemes, List.forall_mem_map]
  refine forall₂_congr fun l hl => PlacedLexeme.diagnostic?_eq_none_iff ?_
  have hmem : l.lexeme ∈ Lexeme.lexemes text := hlexemes ▸ List.mem_map_of_mem hl
  obtain ⟨rest, hstands⟩ := (Lexeme.cut_lexemes text).exists_stands _ hmem
  exact hstands.text_ne_nil

/-- **A rule text has no problems iff it is in order**: it is cut into tokens without a problem, which means that no
character is stray and that every string and block comment is closed, and every token is followed by what it
requires. -/
theorem ParsedRule.diagnostics_eq_nil_iff (text : List Char) :
    ((ofText text).diagnostics = [] ↔
      Token.diagnosticsOfText text = [] ∧ Statement.AllComplete (Token.ofText text)) ∧
    (Token.diagnosticsOfText text = [] ↔ ∀ l ∈ Lexeme.lexemes text, l.kind.isProblem = false) := by
  refine ⟨?_, Token.diagnosticsOfText_eq_nil_iff⟩
  have hsort : ∀ ds, byPosition ds = [] ↔ ds = [] := by
    intro ds
    rw [byPosition, ← List.length_eq_zero_iff, List.length_mergeSort, List.length_eq_zero_iff]
  rw [ofText, hsort, List.append_eq_nil_iff, Statement.readings_problems_eq_nil_iff]

/-- A number of 18 digits is a limit, and key words may stand where names do. -/
example : (ParsedRule.ofText "module deny \x7b deny file.lines > 123456789012345678".toList).diagnostics.map (·.text) =
    ["1:8: expected target after 'deny'"] := by
  decide +kernel

end Conformance
