import Conformance.Rule.Lexeme

/-!
# The lexical grammar of rule texts

`Lexeme.Stands l rest` says, one constructor for each kind of lexeme, that `l` is a lexeme of its kind and that it ends
where `rest` begins; `Lexeme.Cut` puts lexemes one after the other. Cutting a text is a function and the grammar is a
relation, and they agree (`lexemes_eq_iff`).

What follows a blank does not reach back: if the lexeme before it ends there, the lexemes of both sides are found apart
(`lexemes_append_blank`). A line feed ends everything but a block comment (`lexemes_append_lineFeed`).
-/

namespace Conformance

namespace Lexeme

/-! ## Characters -/

/-- The code points of a set of ranges, one by one. -/
def points (rs : Text.Ranges) : List Nat :=
  rs.flatMap fun r => List.range' r.1 (r.2 + 1 - r.1)

theorem mem_points {rs : Text.Ranges} {n : Nat} (h : rs.has n = true) : n ∈ points rs := by
  obtain ⟨r, hr, hn⟩ := List.any_eq_true.mp h
  simp only [Bool.and_eq_true, decide_eq_true_eq] at hn
  exact List.mem_flatMap.mpr ⟨r, hr, List.mem_range'_1.mpr (by omega)⟩

/-- White space is no part of a word. -/
theorem isWordChar_of_isBlank {c : Char} (h : Text.isBlank c = true) : isWordChar c = false := by
  have hall : ∀ n ∈ points Text.blankRanges, isWordChar (Char.ofNat n) = false := by decide +kernel
  simpa using hall c.toNat (mem_points h)

theorem isBlank_of_isWordChar {c : Char} (h : isWordChar c = true) : Text.isBlank c = false := by
  cases hb : Text.isBlank c with
  | false => rfl
  | true => simp [isWordChar_of_isBlank hb] at h

/-- Digits are characters of words. -/
theorem isWordChar_of_isDigit {c : Char} (h : c.isDigit = true) : isWordChar c = true := by
  have hd : 48 ≤ c.toNat ∧ c.toNat ≤ 57 := by
    simpa [Char.isDigit, UInt32.le_iff_toNat_le] using h
  have hn : c.toNat < 128 := by omega
  simp [isWordChar, Text.isAlphanumeric, hn, Char.isAlphanum, h]

/-- A mark starts no other kind of lexeme. -/
theorem mark_apart {c : Char} (h : isMark c = true) :
    Text.isBlank c = false ∧ isWordChar c = false ∧ c ≠ '#' ∧ c ≠ '/' ∧ c ≠ '"' := by
  have hall : ("\x7b\x7d[](),:@><=;".toList.all fun c =>
      !Text.isBlank c && !isWordChar c && c != '#' && c != '/' && c != '"') = true := by decide +kernel
  have hc := List.all_eq_true.mp hall c (by simpa [isMark] using h)
  simpa [and_assoc] using hc

/-- A word starts with no mark of a comment or string. -/
theorem word_apart {c : Char} (h : isWordChar c = true) : c ≠ '#' ∧ c ≠ '/' ∧ c ≠ '"' ∧ c ≠ '\n' := by
  refine ⟨?_, ?_, ?_, ?_⟩ <;> (rintro rfl; revert h; decide)

/-! ## Kinds of lexemes -/

/-- The values of words: no number, and nothing but characters of words. -/
def IsWord (w : List Char) : Prop :=
  w ≠ [] ∧ (∀ c ∈ w, isWordChar c = true) ∧ ∃ c ∈ w, c.isDigit = false

instance (w : List Char) : Decidable (IsWord w) :=
  decidable_of_iff ((!w.isEmpty && w.all isWordChar && w.any (!·.isDigit)) = true) (by simp [IsWord, and_assoc])

/-- The values of numbers. -/
def IsNumber (w : List Char) : Prop :=
  w ≠ [] ∧ ∀ c ∈ w, c.isDigit = true

/-- What can follow a word or a number. -/
def EndsWord (rest : List Char) : Prop := ∀ c ∈ rest.head?, isWordChar c = false

/-- What can follow a line comment or a string that is cut off. -/
def EndsLine (rest : List Char) : Prop := ∀ c ∈ rest.head?, c = '\n'

/-- Whether star-slash occurs nowhere. -/
def NoClose (cs : List Char) : Prop := ¬ ['*', '/'] <:+: cs

/-- What a backslash and the character after it mean inside a string. -/
def meaning (d : Char) : List Char :=
  if d = 'n' then ['\n'] else if d = 't' then ['\t'] else if d = '"' then ['"'] else if d = '\\' then ['\\']
  else ['\\', d]

/-- `Spells closed body value`: the body of a string spells a value. Only a body that is cut off can end with a
backslash that escapes nothing. -/
inductive Spells : Bool → List Char → List Char → Prop
  | nil {closed : Bool} : Spells closed [] []
  | plain {closed : Bool} {c : Char} {body value : List Char} : c ≠ '"' → c ≠ '\n' → c ≠ '\\' →
      Spells closed body value → Spells closed (c :: body) (c :: value)
  | escape {closed : Bool} {d : Char} {body value : List Char} : d ≠ '\n' →
      Spells closed body value → Spells closed ('\\' :: d :: body) (meaning d ++ value)
  | cut : Spells false ['\\'] ['\\']

/-- `Stands l rest`: the lexeme `l` has the text of its kind and ends where `rest` begins. -/
inductive Stands : Lexeme → List Char → Prop
  | blank {c : Char} {rest : List Char} : Text.isBlank c = true → Stands ⟨.blank, [c]⟩ rest
  | hashComment {t rest : List Char} : '\n' ∉ t → EndsLine rest → Stands ⟨.lineComment, '#' :: t⟩ rest
  | slashComment {t rest : List Char} : '\n' ∉ t → EndsLine rest → Stands ⟨.lineComment, '/' :: '/' :: t⟩ rest
  | closedComment {t rest : List Char} : NoClose (t ++ ['*']) →
      Stands ⟨.blockComment true, '/' :: '*' :: (t ++ ['*', '/'])⟩ rest
  | openComment {t : List Char} : NoClose t → Stands ⟨.blockComment false, '/' :: '*' :: t⟩ []
  | closedString {body value rest : List Char} : Spells true body value →
      Stands ⟨.string true, '"' :: (body ++ ['"'])⟩ rest
  | openString {body value rest : List Char} : Spells false body value → EndsLine rest →
      Stands ⟨.string false, '"' :: body⟩ rest
  | number {w rest : List Char} : IsNumber w → EndsWord rest → Stands ⟨.number, w⟩ rest
  | word {w rest : List Char} : IsWord w → EndsWord rest → Stands ⟨.word, w⟩ rest
  | mark {c : Char} {rest : List Char} : isMark c = true → Stands ⟨.mark, [c]⟩ rest
  | stray {c : Char} {rest : List Char} : Text.isBlank c = false → isWordChar c = false → isMark c = false →
      c ≠ '#' → c ≠ '"' → (c = '/' → rest.head? ≠ some '/' ∧ rest.head? ≠ some '*') → Stands ⟨.stray, [c]⟩ rest

/-- `Cut text ls`: the lexemes `ls` stand one after the other and make up the text. -/
inductive Cut : List Char → List Lexeme → Prop
  | nil : Cut [] []
  | cons {l : Lexeme} {rest : List Char} {ls : List Lexeme} :
      Stands l rest → Cut rest ls → Cut (l.text ++ rest) (l :: ls)

/-! ## Strings -/

section Bodies

@[simp] theorem bodyLength_nil : bodyLength [] = 0 := rfl

@[simp] theorem bodyLength_quote (cs : List Char) : bodyLength ('"' :: cs) = 0 := by
  rw [bodyLength.eq_def]; simp

@[simp] theorem bodyLength_lineFeed (cs : List Char) : bodyLength ('\n' :: cs) = 0 := by
  rw [bodyLength.eq_def]; simp

theorem bodyLength_plain {c : Char} (cs : List Char) (hq : c ≠ '"') (hn : c ≠ '\n') (hb : c ≠ '\\') :
    bodyLength (c :: cs) = bodyLength cs + 1 := by
  rw [bodyLength.eq_def]; simp [hq, hn, hb]

theorem bodyLength_escape {d : Char} (cs : List Char) (hd : d ≠ '\n') :
    bodyLength ('\\' :: d :: cs) = bodyLength cs + 2 := by
  rw [bodyLength.eq_def]; simp [hd]

theorem bodyLength_lone {rest : List Char} (hr : EndsLine rest) : bodyLength ('\\' :: rest) = 1 := by
  cases rest with
  | nil => rw [bodyLength.eq_def]; simp
  | cons c rest => rw [bodyLength.eq_def]; simp [hr c rfl]

end Bodies

namespace Spells

variable {closed : Bool} {body value : List Char}

/-- The body of a string has no line feed. -/
theorem no_lineFeed (h : Spells closed body value) : '\n' ∉ body := by
  induction h with
  | nil => simp
  | plain _ hn _ _ ih => simp [ih, hn.symm]
  | escape hd _ ih => simp [ih, hd.symm]
  | cut => simp

/-- A body spells one value, the decoded one. -/
theorem unescape_eq (h : Spells closed body value) : unescape body = value := by
  induction h with
  | nil => rfl
  | @plain _ c body value _ _ hb _ ih =>
    cases body with
    | nil => simp [← ih, unescape]
    | cons d body => simp [unescape, hb, ih]
  | escape hd _ ih => simp only [unescape, meaning, ih]; grind
  | cut => rfl

/-- What a body stands before when it is complete: its closing quote. -/
theorem bodyLength_closed (h : Spells closed body value) (hc : closed = true) (rest : List Char) :
    bodyLength (body ++ '"' :: rest) = body.length := by
  induction h with
  | nil => simp
  | plain hq hn hb _ ih => simp [bodyLength_plain _ hq hn hb, ih hc]
  | escape hd _ ih => simp [bodyLength_escape _ hd, ih hc]
  | cut => cases hc

/-- A body that is cut off ends where its line does. -/
theorem bodyLength_open (h : Spells closed body value) {rest : List Char} (hr : EndsLine rest) :
    bodyLength (body ++ rest) = body.length := by
  induction h with
  | nil =>
    cases rest with
    | nil => rfl
    | cons c rest => simp [hr c rfl]
  | plain hq hn hb _ ih => simp [bodyLength_plain _ hq hn hb, ih]
  | escape hd _ ih => simp [bodyLength_escape _ hd, ih]
  | cut => exact bodyLength_lone hr

end Spells

/-- The characters that `bodyLength` counts are a body, closed by a quote or cut off at the end of the line. -/
theorem exists_spells (cs : List Char) : ∃ body rest value, cs = body ++ rest ∧ bodyLength cs = body.length ∧
    (Spells true body value ∧ rest.head? = some '"' ∨ Spells false body value ∧ EndsLine rest) := by
  fun_induction bodyLength cs with
  | case1 => exact ⟨[], [], [], rfl, rfl, .inr ⟨.nil, by simp [EndsLine]⟩⟩
  | case2 c cs h =>
    refine ⟨[], c :: cs, [], rfl, rfl, ?_⟩
    rcases (by simpa using h : c = '"' ∨ c = '\n') with rfl | rfl
    · exact .inl ⟨.nil, rfl⟩
    · exact .inr ⟨.nil, by simp [EndsLine]⟩
  | case3 => exact ⟨['\\'], [], ['\\'], rfl, rfl, .inr ⟨.cut, by simp [EndsLine]⟩⟩
  | case4 cs => exact ⟨['\\'], '\n' :: cs, ['\\'], rfl, rfl, .inr ⟨.cut, by simp [EndsLine]⟩⟩
  | case5 d cs hd _ ih =>
    obtain ⟨body, rest, value, rfl, hlen, h⟩ := ih
    refine ⟨'\\' :: d :: body, rest, meaning d ++ value, rfl, by simp [hlen], ?_⟩
    exact h.imp (fun h => ⟨.escape hd h.1, h.2⟩) fun h => ⟨.escape hd h.1, h.2⟩
  | case6 c cs h hb ih =>
    obtain ⟨body, rest, value, rfl, hlen, h'⟩ := ih
    obtain ⟨hq, hn⟩ : c ≠ '"' ∧ c ≠ '\n' := by simpa using h
    refine ⟨c :: body, rest, c :: value, rfl, by simp [hlen], ?_⟩
    exact h'.imp (fun h => ⟨.plain hq hn hb h.1, h.2⟩) fun h => ⟨.plain hq hn hb h.1, h.2⟩

/-! ## Comments -/

theorem noClose_nil : NoClose [] := by simp [NoClose]

theorem noClose_cons {c : Char} {cs : List Char} :
    NoClose (c :: cs) ↔ ¬ (c = '*' ∧ cs.head? = some '/') ∧ NoClose cs := by
  have hp : ['*', '/'] <+: c :: cs ↔ c = '*' ∧ cs.head? = some '/' := by
    cases cs <;> simp [List.cons_prefix_cons, eq_comm]
  rw [NoClose, List.infix_cons_iff, hp, not_or, NoClose]

theorem commentLength?_cons {c : Char} {cs : List Char} (h : ¬ (c = '*' ∧ cs.head? = some '/')) :
    commentLength? (c :: cs) = (commentLength? cs).map (· + 1) := by
  rw [commentLength?, if_neg (by simpa using h)]

theorem commentLength?_eq_none {cs : List Char} (h : NoClose cs) : commentLength? cs = none := by
  induction cs with
  | nil => rfl
  | cons c cs ih =>
    obtain ⟨hc, hcs⟩ := noClose_cons.mp h
    simp [commentLength?_cons hc, ih hcs]

theorem noClose_of_commentLength? {cs : List Char} (h : commentLength? cs = none) : NoClose cs := by
  induction cs with
  | nil => exact noClose_nil
  | cons c cs ih =>
    by_cases hc : c = '*' ∧ cs.head? = some '/'
    · simp [commentLength?, hc] at h
    · rw [commentLength?_cons hc, Option.map_eq_none_iff] at h
      exact noClose_cons.mpr ⟨hc, ih h⟩

/-- The first star-slash ends a comment. -/
theorem commentLength?_closed {t : List Char} (h : NoClose (t ++ ['*'])) (rest : List Char) :
    commentLength? (t ++ '*' :: '/' :: rest) = some t.length := by
  induction t with
  | nil => simp [commentLength?]
  | cons c t ih =>
    obtain ⟨hc, ht⟩ := noClose_cons.mp h
    have hc' : ¬ (c = '*' ∧ (t ++ '*' :: '/' :: rest).head? = some '/') := by
      cases t with
      | nil => simp
      | cons d t => simpa using hc
    simp [commentLength?_cons hc', ih ht]

theorem exists_closed {cs : List Char} {n : Nat} (h : commentLength? cs = some n) :
    ∃ t rest, cs = t ++ '*' :: '/' :: rest ∧ t.length = n ∧ NoClose (t ++ ['*']) := by
  induction cs generalizing n with
  | nil => simp [commentLength?] at h
  | cons c cs ih =>
    by_cases hc : c = '*' ∧ cs.head? = some '/'
    · obtain ⟨rfl, hcs⟩ := hc
      obtain ⟨rest, rfl⟩ : ∃ rest, cs = '/' :: rest := by
        cases cs <;> simp_all
      obtain rfl : n = 0 := by simpa [commentLength?] using h.symm
      exact ⟨[], rest, rfl, rfl, by simp [noClose_cons, noClose_nil]⟩
    · rw [commentLength?_cons hc, Option.map_eq_some_iff] at h
      obtain ⟨m, hm, rfl⟩ := h
      obtain ⟨t, rest, rfl, rfl, ht⟩ := ih hm
      refine ⟨c :: t, rest, rfl, rfl, noClose_cons.mpr ⟨?_, ht⟩⟩
      cases t <;> simp_all

/-! ## Words -/

theorem takeWhile_of_stop {p : Char → Bool} {w rest : List Char} (hw : ∀ c ∈ w, p c = true)
    (hr : ∀ c ∈ rest.head?, p c = false) : (w ++ rest).takeWhile p = w := by
  have hnil : rest.takeWhile p = [] := by
    cases rest with
    | nil => rfl
    | cons c rest => simp [hr c rfl]
  rw [List.takeWhile_append_of_pos hw, hnil, List.append_nil]

/-- What `takeWhile` takes, and what it stops at. -/
theorem takeWhile_split (p : Char → Bool) (cs : List Char) : ∃ w rest, cs = w ++ rest ∧ cs.takeWhile p = w ∧
    (∀ c ∈ w, p c = true) ∧ ∀ c ∈ rest.head?, p c = false := by
  refine ⟨cs.takeWhile p, cs.dropWhile p, List.takeWhile_append_dropWhile.symm, rfl,
    fun c hc => List.all_eq_true.mp List.all_takeWhile c hc, fun c hc => ?_⟩
  have h := List.head?_dropWhile_not p cs
  cases hd : (cs.dropWhile p).head? with
  | none => simp [hd] at hc
  | some d => simp_all

theorem all_of_length_takeWhile {p : Char → Bool} {w rest : List Char}
    (h : ((w ++ rest).takeWhile p).length = w.length) : ∀ c ∈ w, p c = true := by
  induction w with
  | nil => simp
  | cons c w ih =>
    cases hc : p c with
    | false => simp [hc] at h
    | true =>
      simp only [List.cons_append, List.takeWhile_cons, hc, ↓reduceIte, List.length_cons, Nat.add_right_cancel_iff] at h
      exact List.forall_mem_cons.mpr ⟨hc, ih h⟩

theorem EndsWord.not_digit {rest : List Char} (h : EndsWord rest) : ∀ c ∈ rest.head?, c.isDigit = false := by
  intro c hc
  cases hd : c.isDigit with
  | false => rfl
  | true => rw [← h c hc, isWordChar_of_isDigit hd]

theorem EndsLine.endsWord {rest : List Char} (h : EndsLine rest) : EndsWord rest := by
  intro c hc
  obtain rfl := h c hc
  decide

/-! ## Classification -/

section Classify

variable {c : Char} {cs : List Char}

theorem classify_blank (hb : Text.isBlank c = true) : classify c cs = (.blank, 0) := by
  simp [classify, hb]

theorem classify_line (h : c = '#' ∨ c = '/' ∧ cs.head? = some '/') :
    classify c cs = (.lineComment, (cs.takeWhile (· != '\n')).length) := by
  have hb : Text.isBlank c = false := by rcases h with rfl | ⟨rfl, _⟩ <;> decide
  simp [classify, hb, h]

theorem classify_closedComment {n : Nat} (h : commentLength? cs = some n) :
    classify '/' ('*' :: cs) = (.blockComment true, n + 3) := by
  have hb : Text.isBlank '/' = false := by decide
  simp [classify, hb, h]

theorem classify_openComment (h : commentLength? cs = none) :
    classify '/' ('*' :: cs) = (.blockComment false, cs.length + 1) := by
  have hb : Text.isBlank '/' = false := by decide
  simp [classify, hb, h]

theorem classify_quote (cs : List Char) : classify '"' cs =
    if (cs.drop (bodyLength cs)).head? = some '"' then (.string true, bodyLength cs + 1)
    else (.string false, bodyLength cs) := by
  have hb : Text.isBlank '"' = false := by decide
  simp [classify, hb]

theorem classify_digit (hd : c.isDigit = true) : classify c cs =
    (if (cs.takeWhile isWordChar).length = (cs.takeWhile Char.isDigit).length then .number else .word,
      (cs.takeWhile isWordChar).length) := by
  have hw := isWordChar_of_isDigit hd
  obtain ⟨h1, h2, h3, -⟩ := word_apart hw
  simp [classify, isBlank_of_isWordChar hw, h1, h2, h3, hd]

theorem classify_word (hw : isWordChar c = true) (hd : c.isDigit = false) :
    classify c cs = (.word, (cs.takeWhile isWordChar).length) := by
  obtain ⟨h1, h2, h3, -⟩ := word_apart hw
  simp [classify, isBlank_of_isWordChar hw, h1, h2, h3, hd, hw]

theorem classify_mark (hm : isMark c = true) : classify c cs = (.mark, 0) := by
  obtain ⟨hb, hw, h1, h2, h3⟩ := mark_apart hm
  have hd : c.isDigit = false := by
    cases hd : c.isDigit with
    | false => rfl
    | true => rw [← hw, isWordChar_of_isDigit hd]
  simp [classify, hb, h1, h2, h3, hd, hw, hm]

theorem classify_stray (hb : Text.isBlank c = false) (hw : isWordChar c = false) (hm : isMark c = false)
    (h1 : c ≠ '#') (h2 : c ≠ '"') (h3 : c = '/' → cs.head? ≠ some '/' ∧ cs.head? ≠ some '*') :
    classify c cs = (.stray, 0) := by
  have hd : c.isDigit = false := by
    cases hd : c.isDigit with
    | false => rfl
    | true => rw [← hw, isWordChar_of_isDigit hd]
  by_cases hc : c = '/'
  · obtain ⟨h4, h5⟩ := h3 hc
    simp [classify, hb, h1, h2, h4, h5, hd, hw, hm]
  · simp [classify, hb, h1, h2, hc, hd, hw, hm]

end Classify

theorem takeWhile_line {t rest : List Char} (ht : '\n' ∉ t) (hr : EndsLine rest) :
    (t ++ rest).takeWhile (· != '\n') = t := by
  refine takeWhile_of_stop (fun c hc => ?_) fun c hc => ?_
  · simpa using fun h : c = '\n' => ht (h ▸ hc)
  · simp [hr c hc]

/-- How the first character of a lexeme that stands before `rest` is classified. -/
theorem Stands.classify_eq {l : Lexeme} {rest : List Char} (h : Stands l rest) :
    ∃ c cs, l.text = c :: cs ∧ classify c (cs ++ rest) = (l.kind, cs.length) := by
  cases h with
  | @blank c _ hb => exact ⟨c, [], rfl, classify_blank hb⟩
  | @hashComment t _ ht hr =>
    refine ⟨'#', t, rfl, ?_⟩
    rw [classify_line (.inl rfl), takeWhile_line ht hr]
  | @slashComment t _ ht hr =>
    have ht' : '\n' ∉ '/' :: t := by simp [ht]
    refine ⟨'/', '/' :: t, rfl, ?_⟩
    rw [classify_line (.inr ⟨rfl, rfl⟩), takeWhile_line ht' hr]
  | @closedComment t _ ht =>
    have hlen := commentLength?_closed ht rest
    refine ⟨'/', '*' :: (t ++ ['*', '/']), rfl, ?_⟩
    simpa using classify_closedComment hlen
  | @openComment t ht =>
    refine ⟨'/', '*' :: t, rfl, ?_⟩
    simpa using classify_openComment (commentLength?_eq_none ht)
  | @closedString body value _ h =>
    refine ⟨'"', body ++ ['"'], rfl, ?_⟩
    simp [classify_quote, h.bodyLength_closed rfl]
  | @openString body value _ h hr =>
    refine ⟨'"', body, rfl, ?_⟩
    have hq : rest.head? ≠ some '"' := fun hq => by simpa using hr '"' hq
    simp [classify_quote, h.bodyLength_open hr, hq]
  | @number w _ hw hr =>
    obtain ⟨hne, hd⟩ := hw
    obtain ⟨c, cs, rfl⟩ := List.exists_cons_of_ne_nil hne
    obtain ⟨hc, hcs⟩ := List.forall_mem_cons.mp hd
    refine ⟨c, cs, rfl, ?_⟩
    rw [classify_digit hc, takeWhile_of_stop (fun d h => isWordChar_of_isDigit (hcs d h)) hr,
      takeWhile_of_stop hcs hr.not_digit, if_pos rfl]
  | @word w _ hw hr =>
    obtain ⟨hne, hall, d, hd, hnd⟩ := hw
    obtain ⟨c, cs, rfl⟩ := List.exists_cons_of_ne_nil hne
    obtain ⟨hc, hcs⟩ := List.forall_mem_cons.mp hall
    refine ⟨c, cs, rfl, ?_⟩
    cases hcd : c.isDigit with
    | false => rw [classify_word hc hcd, takeWhile_of_stop hcs hr]
    | true =>
      rw [classify_digit hcd, takeWhile_of_stop hcs hr, if_neg]
      intro hlen
      have hdigits := all_of_length_takeWhile hlen.symm
      rcases List.mem_cons.mp hd with rfl | hd
      · simp [hcd] at hnd
      · simp [hdigits d hd] at hnd
  | @mark c _ hc => exact ⟨c, [], rfl, classify_mark hc⟩
  | @stray c _ hb hw hm h1 h2 h3 => exact ⟨c, [], rfl, classify_stray hb hw hm h1 h2 h3⟩

/-- What a first character is classified as stands before what is left. -/
theorem stands_classify (c : Char) (cs : List Char) : ∃ t rest, cs = t ++ rest ∧ (classify c cs).2 = t.length ∧
    Stands ⟨(classify c cs).1, c :: t⟩ rest := by
  by_cases hb : Text.isBlank c = true
  · rw [classify_blank hb]
    exact ⟨[], cs, rfl, rfl, .blank hb⟩
  by_cases hl : c = '#' ∨ c = '/' ∧ cs.head? = some '/'
  · obtain ⟨t, rest, rfl, htake, ht, hr⟩ := takeWhile_split (· != '\n') cs
    have hfree : '\n' ∉ t := fun h => by simpa using ht _ h
    have hline : EndsLine rest := fun d hd => by simpa using hr d hd
    rw [classify_line hl, htake]
    refine ⟨t, rest, rfl, rfl, ?_⟩
    rcases hl with rfl | ⟨rfl, hh⟩
    · exact .hashComment hfree hline
    · cases t with
      | nil => exact absurd (hline '/' (by simpa using hh)) (by decide)
      | cons d t =>
        obtain rfl : d = '/' := by simpa using hh
        exact .slashComment (fun h => hfree (List.mem_cons_of_mem _ h)) hline
  by_cases hk : c = '/' ∧ cs.head? = some '*'
  · obtain ⟨rfl, hh⟩ := hk
    obtain ⟨cs, rfl⟩ : ∃ ds, cs = '*' :: ds := by
      cases cs <;> simp_all
    cases hlen : commentLength? cs with
    | none =>
      rw [classify_openComment hlen]
      exact ⟨'*' :: cs, [], by simp, rfl, .openComment (noClose_of_commentLength? hlen)⟩
    | some n =>
      obtain ⟨t, rest, rfl, rfl, ht⟩ := exists_closed hlen
      rw [classify_closedComment hlen]
      exact ⟨'*' :: (t ++ ['*', '/']), rest, by simp, by simp, .closedComment ht⟩
  by_cases hq : c = '"'
  · obtain ⟨body, rest, value, rfl, hlen, h⟩ := exists_spells cs
    subst hq
    rw [classify_quote, hlen, List.drop_left]
    rcases h with ⟨hs, hr⟩ | ⟨hs, hr⟩
    · obtain ⟨rest, rfl⟩ : ∃ r, rest = '"' :: r := by
        cases rest <;> simp_all
      exact ⟨body ++ ['"'], rest, by simp, by simp, .closedString hs⟩
    · have hr' : rest.head? ≠ some '"' := fun hq => by simpa using hr '"' hq
      rw [if_neg hr']
      exact ⟨body, rest, rfl, rfl, .openString hs hr⟩
  by_cases hd : c.isDigit = true
  · obtain ⟨w, rest, rfl, htake, hw, hr⟩ := takeWhile_split isWordChar cs
    have hc := isWordChar_of_isDigit hd
    rw [classify_digit hd, htake]
    refine ⟨w, rest, rfl, rfl, ?_⟩
    by_cases hall : ∀ d ∈ w, d.isDigit = true
    · rw [takeWhile_of_stop hall (EndsWord.not_digit hr), if_pos rfl]
      exact .number ⟨by simp, List.forall_mem_cons.mpr ⟨hd, hall⟩⟩ hr
    · obtain ⟨d, hdw, hnd⟩ : ∃ d ∈ w, d.isDigit = false := by simpa using hall
      rw [if_neg fun h => hall (all_of_length_takeWhile h.symm)]
      exact .word ⟨by simp, List.forall_mem_cons.mpr ⟨hc, hw⟩, d, by simp [hdw], hnd⟩ hr
  by_cases hw : isWordChar c = true
  · obtain ⟨w, rest, rfl, htake, hws, hr⟩ := takeWhile_split isWordChar cs
    rw [classify_word hw (by simpa using hd), htake]
    exact ⟨w, rest, rfl, rfl, .word ⟨by simp, List.forall_mem_cons.mpr ⟨hw, hws⟩, c, by simp, by simpa using hd⟩ hr⟩
  by_cases hm : isMark c = true
  · rw [classify_mark hm]
    exact ⟨[], cs, rfl, rfl, .mark hm⟩
  simp only [Bool.not_eq_true, not_or] at hb hw hm hl
  have hslash : c = '/' → cs.head? ≠ some '/' ∧ cs.head? ≠ some '*' :=
    fun hc => ⟨fun h => hl.2 ⟨hc, h⟩, fun h => hk ⟨hc, h⟩⟩
  rw [classify_stray hb hw hm hl.1 hq hslash]
  exact ⟨[], cs, rfl, rfl, .stray hb hw hm hl.1 hq hslash⟩

/-! ## Cutting -/

theorem lexemes_nil : lexemes [] = [] := by rw [lexemes]

/-- A lexeme that stands before `rest` is the first one. -/
theorem lexemes_of_stands {l : Lexeme} {rest : List Char} (h : Stands l rest) :
    lexemes (l.text ++ rest) = l :: lexemes rest := by
  obtain ⟨c, cs, htext, hclass⟩ := h.classify_eq
  obtain ⟨kind, text⟩ := l
  obtain rfl : text = c :: cs := htext
  rw [List.cons_append, lexemes]
  simp [hclass]

theorem cut_lexemes (text : List Char) : Cut text (lexemes text) := by
  induction hn : text.length using Nat.strongRecOn generalizing text with
  | ind n ih =>
    cases text with
    | nil => rw [lexemes]; exact .nil
    | cons c cs =>
      obtain ⟨t, rest, rfl, hlen, h⟩ := stands_classify c cs
      have hcut := ih rest.length (by simp at hn; omega) rest rfl
      have hl := lexemes_of_stands h
      rw [List.cons_append] at hl
      rw [hl]
      exact .cons h hcut

theorem Cut.exists_stands {text : List Char} {ls : List Lexeme} (h : Cut text ls) :
    ∀ l ∈ ls, ∃ rest, Stands l rest := by
  induction h with
  | nil => simp
  | cons hl _ ih => exact List.forall_mem_cons.mpr ⟨⟨_, hl⟩, ih⟩

/-- **The lexemes of a text are those of the grammar.** -/
theorem lexemes_eq_iff {text : List Char} {ls : List Lexeme} : lexemes text = ls ↔ Cut text ls := by
  constructor
  · rintro rfl
    exact cut_lexemes text
  · intro h
    induction h with
    | nil => exact lexemes_nil
    | cons h _ ih => rw [lexemes_of_stands h, ih]

/-! ## Blanks -/

/-- A lexeme of this kind ends before the blank `c`, wherever the text before the blank ends. -/
structure Kind.EndsAt (k : Kind) (c : Char) : Prop where
  notOpen : k ≠ .blockComment false
  lineFeed : k = .lineComment ∨ k = .string false → c = '\n'

/-- A lexeme does not notice that a blank at which it ends, and more text, come behind the text that follows it. -/
theorem Stands.before_blank {l : Lexeme} {rest : List Char} {c : Char} (hc : Text.isBlank c = true)
    (h : Stands l rest) (hl : rest = [] → l.kind.EndsAt c) (after : List Char) : Stands l (rest ++ c :: after) := by
  have hhead : ∀ p : Char → Prop, (rest = [] → p c) → (∀ d ∈ rest.head?, p d) → ∀ d ∈ (rest ++ c :: after).head?, p d := by
    intro p hp hrest
    cases rest with
    | nil => simpa using hp rfl
    | cons d rest => simpa using hrest
  have hword : isWordChar c = false := isWordChar_of_isBlank hc
  cases h with
  | blank hb => exact .blank hb
  | hashComment ht hr => exact .hashComment ht (hhead _ (fun hnil => (hl hnil).lineFeed (.inl rfl)) hr)
  | slashComment ht hr => exact .slashComment ht (hhead _ (fun hnil => (hl hnil).lineFeed (.inl rfl)) hr)
  | closedComment ht => exact .closedComment ht
  | openComment => exact absurd rfl (hl rfl).notOpen
  | closedString hs => exact .closedString hs
  | openString hs hr => exact .openString hs (hhead _ (fun hnil => (hl hnil).lineFeed (.inr rfl)) hr)
  | number hw hr => exact .number hw (hhead _ (fun _ => hword) hr)
  | word hw hr => exact .word hw (hhead _ (fun _ => hword) hr)
  | mark hm => exact .mark hm
  | stray hb hw hm h1 h2 h3 =>
    refine .stray hb hw hm h1 h2 fun hslash => ?_
    cases rest with
    | nil => constructor <;> (rintro ⟨rfl⟩; exact absurd hc (by decide))
    | cons d rest => simpa using h3 hslash

theorem Cut.append_blank {text after : List Char} {c : Char} (hc : Text.isBlank c = true) {ls ls' : List Lexeme}
    (h : Cut text ls) (hls : ∀ l ∈ ls.getLast?, l.kind.EndsAt c) (h' : Cut (c :: after) ls') :
    Cut (text ++ c :: after) (ls ++ ls') := by
  induction h with
  | nil => exact h'
  | @cons l rest ls hl hcut ih =>
    have hlast : rest = [] → l.kind.EndsAt c := by
      rintro rfl
      obtain rfl : ls = [] := (lexemes_eq_iff.mpr hcut).symm.trans lexemes_nil
      exact hls l rfl
    have hothers : ∀ k ∈ ls.getLast?, k.kind.EndsAt c := by
      cases ls with
      | nil => simp
      | cons k ls => simpa using hls
    rw [List.append_assoc, List.cons_append]
    exact .cons (hl.before_blank hc hlast after) (ih hothers)

/-- **A blank parts the lexemes**, if the last one before it ends there. -/
theorem lexemes_append_blank {text : List Char} {c : Char} (hc : Text.isBlank c = true)
    (h : ∀ l ∈ (lexemes text).getLast?, l.kind.EndsAt c) (after : List Char) :
    lexemes (text ++ c :: after) = lexemes text ++ lexemes (c :: after) :=
  lexemes_eq_iff.mpr ((cut_lexemes text).append_blank hc h (cut_lexemes _))

/-! ## Line feeds -/

/-- Only an open block comment does not end before a line feed. -/
theorem Kind.endsAt_lineFeed {k : Kind} (h : k ≠ .blockComment false) : k.EndsAt '\n' := ⟨h, fun _ => rfl⟩

/-- A lexeme other than an open comment does not notice that a line feed and more text come behind the text that
follows it. -/
theorem Stands.before_lineFeed {l : Lexeme} {rest : List Char} (h : Stands l rest)
    (hl : l.kind ≠ .blockComment false) (after : List Char) : Stands l (rest ++ '\n' :: after) :=
  h.before_blank (by decide) (fun _ => Kind.endsAt_lineFeed hl) after

/-- **A line feed parts the lexemes**, unless it stands inside a block comment. -/
theorem lexemes_append_lineFeed {text : List Char} (after : List Char)
    (h : ∀ l ∈ lexemes text, l.kind ≠ .blockComment false) :
    lexemes (text ++ '\n' :: after) = lexemes text ++ lexemes ('\n' :: after) :=
  lexemes_append_blank (by decide) (fun l hl => Kind.endsAt_lineFeed (h l (List.mem_of_getLast? hl))) after

end Lexeme

end Conformance
