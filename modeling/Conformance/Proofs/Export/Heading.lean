import Conformance.Proofs.Export.Line
import Conformance.Proofs.Pattern.Recognition

/-!
# Headings of exported declarations

What stands in front of a declared name, from `export` on, is a `Heading`: the words and the white space between them. A
name with its heading is told by where the `export` stands (`Exported.eq_of_length_before_eq`), for a heading goes to the
first keyword of a declaration. It is told by where the name starts as well (`Exported.eq_of_start_eq`), for `export`
opens no heading within another one.
-/

namespace Conformance.Export

open Pattern Text

/-! ## Headings -/

/-- Some white space. -/
def IsSpace (t : List Char) : Prop := t ≠ [] ∧ ∀ x ∈ t, isBlank x = true

/-- A word with white space behind it, if it is there. -/
def spaced (word : String) (space? : Option (List Char)) : List Char := (space?.map (word.toList ++ ·)).getD []

/-- What stands in front of a name that is declared. A word that may be there is told by the white space behind it. -/
@[ext]
structure Heading where
  /-- The white space behind `export`. -/
  space : List Char
  default? : Option (List Char)
  async? : Option (List Char)
  keyword : String
  gap : List Char
  isSpace_space : IsSpace space
  isSpace_default : ∀ t ∈ default?, IsSpace t
  isSpace_async : ∀ t ∈ async?, IsSpace t
  keyword_mem : keyword ∈ keywords
  gap_ne_nil : gap ≠ []
  isGap_gap : ∀ x ∈ gap, isGap x = true

namespace Heading

variable (h : Heading)

/-- What stands behind `export`. -/
def tail : List Char :=
  h.space ++ (spaced "default" h.default? ++ (spaced "async" h.async? ++ (h.keyword.toList ++ h.gap)))

def text : List Char := "export".toList ++ h.tail

theorem text_eq : h.text = "export".toList ++ h.tail := rfl

theorem text_eq_cons : h.text = 'e' :: ("xport".toList ++ h.tail) := rfl

/-- A heading as a utility has it: there is no `default`, variables are constant, and nothing but white space stands in
front of the name. -/
structure IsPlain : Prop where
  default_eq : h.default? = none
  keyword_mem : h.keyword ∈ ["const", "function", "class"]
  isBlank_gap : ∀ x ∈ h.gap, isBlank x = true

end Heading

/-! ## Where a heading ends -/

/-- The words of headings. -/
def headingWords : List String := "export" :: "default" :: "async" :: keywords

theorem isWord_of_mem_headingWords {word : String} (h : word ∈ headingWords) : ∀ x ∈ word.toList, isWord x = true := by
  have hall : headingWords.all (fun w => w.toList.all isWord) = true := by decide +kernel
  exact List.all_eq_true.mp (List.all_eq_true.mp hall word h)

theorem ne_nil_of_mem_headingWords {word : String} (h : word ∈ headingWords) : word.toList ≠ [] := by
  have hall : headingWords.all (fun w => !w.toList.isEmpty) = true := by decide
  simpa using List.all_eq_true.mp hall word h

/-- The text begins with a word. -/
def StartsWord (t : List Char) : Prop := ∀ x ∈ t.head?, isWord x = true

theorem StartsWord.not_isGap {t : List Char} (ht : StartsWord t) : ∀ x ∈ t.head?, isGap x = false := by
  intro x hx
  by_contra hgap
  have hword := ht x hx
  rw [isWord_of_isGap (Bool.not_eq_false _ ▸ hgap)] at hword
  cases hword

theorem StartsWord.not_isBlank {t : List Char} (ht : StartsWord t) : ∀ x ∈ t.head?, isBlank x = false :=
  fun x hx => isBlank_of_isWord (ht x hx)

theorem StartsWord.append {w t : List Char} (hw : ∀ x ∈ w, isWord x = true) (hne : w ≠ []) : StartsWord (w ++ t) := by
  intro x hx
  rw [List.head?_append_of_ne_nil _ hne] at hx
  exact hw x (List.mem_of_mem_head? hx)

theorem IsSpace.stopsWord {t rest : List Char} (ht : IsSpace t) : StopsWord (t ++ rest) := by
  intro x hx
  rw [List.head?_append_of_ne_nil _ ht.1] at hx
  exact isWord_of_isBlank (ht.2 x (List.mem_of_mem_head? hx))

theorem StartsWord.spaced {word : String} (hword : word ∈ headingWords) {s? : Option (List Char)} {t : List Char}
    (ht : StartsWord t) : StartsWord (spaced word s? ++ t) := by
  cases s? with
  | none => exact ht
  | some s =>
    show StartsWord (word.toList ++ s ++ t)
    rw [List.append_assoc]
    exact .append (isWord_of_mem_headingWords hword) (ne_nil_of_mem_headingWords hword)

/-- A word that may be there is there or not, and its white space is known, if another word is behind it. -/
theorem spaced_append_inj {word : String} (hword : word ∈ headingWords) {s? s'? : Option (List Char)}
    (hs : ∀ t ∈ s?, IsSpace t) (hs' : ∀ t ∈ s'?, IsSpace t) {rest after : List Char} (hrest : StartsWord rest)
    (hafter : StartsWord after) (hother : rest.takeWhile isWord ≠ word.toList)
    (hother' : after.takeWhile isWord ≠ word.toList) (h : spaced word s? ++ rest = spaced word s'? ++ after) :
    s? = s'? ∧ rest = after := by
  have hfirst : ∀ {t xs : List Char}, IsSpace t → (word.toList ++ (t ++ xs)).takeWhile isWord = word.toList :=
    fun ht => Lexeme.takeWhile_of_stop (isWord_of_mem_headingWords hword) ht.stopsWord
  cases s? with
  | none =>
    cases s'? with
    | none => exact ⟨rfl, h⟩
    | some t' =>
      have heq : rest = word.toList ++ (t' ++ after) := by simpa [spaced] using h
      rw [heq, hfirst (hs' t' rfl)] at hother
      exact absurd rfl hother
  | some t =>
    cases s'? with
    | none =>
      have heq : after = word.toList ++ (t ++ rest) := by simpa [spaced] using h.symm
      rw [heq, hfirst (hs t rfl)] at hother'
      exact absurd rfl hother'
    | some t' =>
      have heq : t ++ rest = t' ++ after := by simpa [spaced] using h
      obtain ⟨rfl, rfl⟩ := run_eq_of_append_eq (hs t rfl).2 (hs' t' rfl).2 hrest.not_isBlank hafter.not_isBlank heq
      exact ⟨rfl, rfl⟩

namespace Heading

variable (h h' : Heading) {xs ys : List Char}

theorem isWord_keyword : ∀ x ∈ h.keyword.toList, isWord x = true :=
  isWord_of_mem_headingWords (List.mem_append_right ["export", "default", "async"] h.keyword_mem)

theorem keyword_ne_nil : h.keyword.toList ≠ [] :=
  ne_nil_of_mem_headingWords (List.mem_append_right ["export", "default", "async"] h.keyword_mem)

theorem keyword_ne : h.keyword.toList ≠ "default".toList ∧ h.keyword.toList ≠ "async".toList := by
  have hall : keywords.all (fun w => w.toList != "default".toList && w.toList != "async".toList) = true := by decide
  simpa only [Bool.and_eq_true, bne_iff_ne] using List.all_eq_true.mp hall h.keyword h.keyword_mem

theorem stopsWord_gap : StopsWord (h.gap ++ xs) := by
  intro x hx
  rw [List.head?_append_of_ne_nil _ h.gap_ne_nil] at hx
  exact isWord_of_isGap (h.isGap_gap x (List.mem_of_mem_head? hx))

/-- What a heading goes on with behind `async`, in front of `xs`. -/
def declarator (xs : List Char) : List Char := h.keyword.toList ++ (h.gap ++ xs)

theorem text_append (xs : List Char) : h.text ++ xs =
    "export".toList ++ (h.space ++ (spaced "default" h.default? ++ (spaced "async" h.async? ++ h.declarator xs))) := by
  simp only [text_eq, tail, declarator, List.append_assoc]

theorem startsWord_declarator : StartsWord (h.declarator xs) := .append h.isWord_keyword h.keyword_ne_nil

/-- The first word behind `async` is the keyword. -/
theorem takeWhile_declarator : (h.declarator xs).takeWhile isWord = h.keyword.toList :=
  Lexeme.takeWhile_of_stop h.isWord_keyword h.stopsWord_gap

/-- The first word behind `default` is not another `default`. -/
theorem takeWhile_spaced_declarator :
    (spaced "async" h.async? ++ h.declarator xs).takeWhile isWord ≠ "default".toList := by
  cases hasync : h.async? with
  | none =>
    show (h.declarator xs).takeWhile isWord ≠ _
    rw [h.takeWhile_declarator]
    exact h.keyword_ne.1
  | some t =>
    show ("async".toList ++ t ++ h.declarator xs).takeWhile isWord ≠ _
    rw [List.append_assoc, Lexeme.takeWhile_of_stop (isWord_of_mem_headingWords (by decide))
      (h.isSpace_async t hasync).stopsWord]
    decide

/-- **A heading is known** from a text that begins with it and goes on with a name. -/
theorem text_append_inj (hxs : StartsWord xs) (hys : StartsWord ys) (heq : h.text ++ xs = h'.text ++ ys) :
    h = h' ∧ xs = ys := by
  have hasync : ∀ (h : Heading) {xs : List Char}, StartsWord (spaced "async" h.async? ++ h.declarator xs) :=
    fun h => h.startsWord_declarator.spaced (by decide)
  have hdefault : ∀ (h : Heading) {xs : List Char},
      StartsWord (spaced "default" h.default? ++ (spaced "async" h.async? ++ h.declarator xs)) :=
    fun h => (hasync h).spaced (by decide)
  rw [text_append, text_append, List.append_cancel_left_eq] at heq
  obtain ⟨hspace, heq⟩ := run_eq_of_append_eq h.isSpace_space.2 h'.isSpace_space.2 (hdefault h).not_isBlank
    (hdefault h').not_isBlank heq
  obtain ⟨hdefault?, heq⟩ := spaced_append_inj (by decide) h.isSpace_default h'.isSpace_default (hasync h) (hasync h')
    h.takeWhile_spaced_declarator h'.takeWhile_spaced_declarator heq
  obtain ⟨hasync?, heq⟩ := spaced_append_inj (by decide) h.isSpace_async h'.isSpace_async h.startsWord_declarator
    h'.startsWord_declarator (h.takeWhile_declarator ▸ h.keyword_ne.2) (h'.takeWhile_declarator ▸ h'.keyword_ne.2) heq
  obtain ⟨hkeyword, heq⟩ :=
    run_eq_of_append_eq h.isWord_keyword h'.isWord_keyword h.stopsWord_gap h'.stopsWord_gap heq
  obtain ⟨hgap, hrest⟩ := run_eq_of_append_eq h.isGap_gap h'.isGap_gap hxs.not_isGap hys.not_isGap heq
  exact ⟨Heading.ext hspace hdefault? hasync? (String.toList_inj.mp hkeyword) hgap, hrest⟩

/-! ## Where `export` stands in a heading -/

theorem avoids_spaced {word : String} (hword : word ∈ headingWords) (hne : word.toList ≠ "export".toList)
    {s? : Option (List Char)} (hs : ∀ t ∈ s?, IsSpace t) {t : List Char} (ht : Avoids "export".toList t) :
    Avoids "export".toList (spaced word s? ++ t) := by
  cases s? with
  | none => exact ht
  | some s =>
    have hspace := hs s rfl
    have hgaps : Avoids "export".toList (s ++ t) := ht.gaps fun x hx => isWord_of_isBlank (hspace.2 x hx)
    show Avoids _ (word.toList ++ s ++ t)
    rw [List.append_assoc]
    exact .word (isWord_of_mem_headingWords hword) hne hspace.stopsWord hgaps

/-- **`export` opens nothing in a heading** but the heading itself. -/
theorem quiet_tail (xs : List Char) : Quiet "export".toList xs (some 'e') ("xport".toList ++ h.tail) := by
  have hmem : "export" ∈ headingWords := by decide
  have hexport : ∀ x ∈ "export".toList, isWord x = true := isWord_of_mem_headingWords hmem
  have hkeyword : h.keyword.toList ≠ "export".toList := by
    have hall : keywords.all (fun w => w.toList != "export".toList) = true := by decide
    simpa using List.all_eq_true.mp hall h.keyword h.keyword_mem
  have hne : "export".toList ≠ [] := ne_nil_of_mem_headingWords hmem
  -- The gap is left out: a name stands behind it, and that may be another `export`.
  have hwords : Avoids "export".toList
      (h.space ++ (spaced "default" h.default? ++ (spaced "async" h.async? ++ (h.keyword.toList ++ [])))) := by
    apply Avoids.gaps fun x hx => isWord_of_isBlank (h.isSpace_space.2 x hx)
    apply avoids_spaced (by decide) (by decide) h.isSpace_default
    apply avoids_spaced (by decide) (by decide) h.isSpace_async
    exact .word h.isWord_keyword hkeyword (fun _ hx => by cases hx) .nil
  have htail : h.tail = (h.space ++ (spaced "default" h.default? ++ (spaced "async" h.async? ++ (h.keyword.toList ++
      [])))) ++ h.gap := by
    simp only [tail, List.append_assoc, List.append_nil]
  rw [htail, quiet_append, quiet_append]
  refine ⟨quiet_of_word (by decide) (List.all_eq_true.mp (by decide)), ?_, ?_⟩
  · exact hwords.quiet hexport hne h.stopsWord_gap
  · exact quiet_of_gaps hexport (fun x hx => isWord_of_isGap (h.isGap_gap x hx)) hne

end Heading

/-! ## Patterns of headings -/

section Fits

variable {t : List Char}

theorem fits_space : (blanks 1).Fits t ↔ IsSpace t := by
  rw [fits_blanks, IsSpace, ← List.length_pos_iff]
  rfl

theorem fits_optionalWord {word : String} :
    (optionalWord word).Fits t ↔ ∃ s? : Option (List Char), (∀ s ∈ s?, IsSpace s) ∧ t = spaced word s? := by
  rw [optionalWord, fits_optional]
  simp only [fits_inOrder_cons, fits_inOrder_nil, fits_text, fits_space]
  constructor
  · rintro (⟨_, _, rfl, rfl, s, _, rfl, hs, rfl⟩ | rfl)
    · refine ⟨some s, ?_, by rw [List.append_nil]; rfl⟩
      rintro _ ⟨⟩
      exact hs
    · refine ⟨none, ?_, rfl⟩
      rintro _ ⟨⟩
  · rintro ⟨s?, hs, rfl⟩
    cases s? with
    | none => exact .inr rfl
    | some s => exact .inl ⟨_, _, rfl, rfl, s, [], (List.append_nil s).symm, hs s rfl, rfl⟩

theorem fits_keyword {words : List String} : (oneOf (words.map text)).Fits t ↔ ∃ w ∈ words, t = w.toList := by
  simp only [fits_oneOf, List.mem_map, exists_exists_and_eq_and, fits_text]

/-- What stands in front of the name of a declaration. -/
theorem exists_heading_of_fits (ht : (inOrder [text "export", blanks 1, optionalWord "default", optionalWord "async",
    oneOf (keywords.map text), greedily 1 isGap]).Fits t) : ∃ h : Heading, t = h.text := by
  simp only [fits_inOrder_cons, fits_inOrder_nil, fits_text, fits_space, fits_optionalWord, fits_keyword,
    fits_greedily] at ht
  obtain ⟨_, _, rfl, rfl, space, _, rfl, hspace, _, _, rfl, ⟨default?, hdefault, rfl⟩, _, _, rfl, ⟨async?, hasync, rfl⟩,
    _, _, rfl, ⟨keyword, hkeyword, rfl⟩, gap, _, rfl, ⟨hlength, hgap⟩, rfl⟩ := ht
  refine ⟨⟨space, default?, async?, keyword, gap, hspace, hdefault, hasync, hkeyword, List.length_pos_iff.mp hlength,
    hgap⟩, ?_⟩
  simp only [Heading.text_eq, Heading.tail, List.append_nil]

/-- What stands in front of the name of a utility is a plain heading. -/
theorem fits_plain_iff : (inOrder [text "export", blanks 1, optionalWord "async",
    oneOf (["const", "function", "class"].map text), blanks 1]).Fits t ↔ ∃ h : Heading, h.IsPlain ∧ t = h.text := by
  simp only [fits_inOrder_cons, fits_inOrder_nil, fits_text, fits_space, fits_optionalWord, fits_keyword]
  constructor
  · rintro ⟨_, _, rfl, rfl, space, _, rfl, hspace, _, _, rfl, ⟨async?, hasync, rfl⟩, _, _, rfl,
      ⟨keyword, hkeyword, rfl⟩, gap, _, rfl, hgap, rfl⟩
    have hall : ["const", "function", "class"].all (keywords.contains ·) = true := by decide
    have hmem : keyword ∈ keywords := List.contains_iff_mem.mp (List.all_eq_true.mp hall keyword hkeyword)
    refine ⟨⟨space, none, async?, keyword, gap, hspace, ?_, hasync, hmem, hgap.1, ?_⟩, ⟨rfl, hkeyword, hgap.2⟩, ?_⟩
    · rintro _ ⟨⟩
    · intro x hx
      simp [isGap, hgap.2 x hx]
    · simp only [Heading.text_eq, Heading.tail, List.append_nil]
      rfl
  · rintro ⟨h, hplain, rfl⟩
    have hgap : IsSpace h.gap := ⟨h.gap_ne_nil, hplain.isBlank_gap⟩
    refine ⟨_, _, rfl, rfl, h.space, _, rfl, h.isSpace_space, _, _, ?_, ⟨h.async?, h.isSpace_async, rfl⟩, _, _, rfl,
      ⟨h.keyword, hplain.keyword_mem, rfl⟩, h.gap, [], (List.append_nil _).symm, hgap, rfl⟩
    rw [hplain.default_eq]
    rfl

end Fits

/-- **A match of a pattern that ends with a name** goes to the end of the name, which it marks. -/
theorem exists_name_of_matchAt? (ps : List Pattern) {c : Cursor} {m : Match}
    (hm : (inOrder (ps ++ [declaredName])).matchAt? c = some m) : ∃ t name after, (inOrder ps).Fits t ∧
      c.rest = t ++ (name ++ after) ∧ name ≠ [] ∧ (∀ x ∈ name, isWord x = true) ∧ StopsWord after ∧
        m = ⟨⟨c.offset, t ++ name⟩, some ⟨c.offset + t.length, name⟩⟩ := by
  rw [matchAt?, find_eq, ends_inOrder_append, findSome?_flatMap] at hm
  obtain ⟨e, he, hm⟩ := List.exists_of_findSome?_eq_some hm
  obtain ⟨t, ht, hfits⟩ := exists_fitting_of_mem_ends he
  obtain ⟨name, after, hrest, -, hname, hafter⟩ := Lexeme.takeWhile_split isWord e.rest
  have hreach := Cursor.reaches_past hrest
  have hmarked : e.upTo (e.past name) = ⟨c.offset + t.length, name⟩ := by rw [hreach.upTo_eq, ht.offset]
  have hwhole : c.upTo (e.past name) = ⟨c.offset, t ++ name⟩ := (ht.trans hreach).upTo_eq
  have hfind : (inOrder [declaredName]).find (fun d => some (⟨c.upTo d, d.marked⟩ : Match)) e =
      if 1 ≤ name.length then some ⟨c.upTo (e.past name), some (e.upTo (e.past name))⟩ else none :=
    (LongestRun.of_class hname hafter).find_eq_of_some hrest rfl
  rw [← find_eq, hfind, hmarked, hwhole] at hm
  split at hm
  · rename_i hlength
    refine ⟨t, name, after, hfits, ?_, List.length_pos_iff.mp hlength, hname, hafter, (Option.some.inj hm).symm⟩
    rw [ht.rest, hrest]
  · cases hm

/-! ## Exported names -/

/-- A name that is declared in a text, behind a heading. -/
@[ext]
structure Exported (content : List Char) where
  before : List Char
  heading : Heading
  name : List Char
  after : List Char
  content_eq : content = before ++ (heading.text ++ (name ++ after))
  stopsBefore : (Cursor.lastOf none before).any isWord = false
  name_ne_nil : name ≠ []
  isWord_name : ∀ x ∈ name, isWord x = true
  stopsWord_after : StopsWord after

namespace Exported

variable {content : List Char} (e e' : Exported content)

/-- The name, where it stands. -/
def span : Span := ⟨e.before.length + e.heading.text.length, e.name⟩

/-- The `export` of the heading, where it stands. -/
def opening : Span := ⟨e.before.length, "export".toList⟩

theorem length_before_lt : e.before.length < e.span.start := by
  rw [span, Heading.text_eq_cons]
  exact Nat.lt_add_of_pos_right (Nat.succ_pos _)

theorem startsWord_name : StartsWord (e.name ++ e.after) := .append e.isWord_name e.name_ne_nil

/-- Behind the `export` there is white space. -/
theorem stopsWord_tail {xs : List Char} : StopsWord (e.heading.tail ++ xs) := by
  rw [Heading.tail, List.append_assoc]
  exact e.heading.isSpace_space.stopsWord

/-- An exported name is told by where the `export` stands. -/
theorem eq_of_length_before_eq (h : e.before.length = e'.before.length) : e = e' := by
  have heq := e.content_eq.symm.trans e'.content_eq
  obtain ⟨hbefore, heq⟩ := List.append_inj heq h
  obtain ⟨hheading, heq⟩ := e.heading.text_append_inj e'.heading e.startsWord_name e'.startsWord_name heq
  obtain ⟨hname, hafter⟩ :=
    run_eq_of_append_eq e.isWord_name e'.isWord_name e.stopsWord_after e'.stopsWord_after heq
  exact Exported.ext hbefore hheading hname hafter

/-- `export` opens the heading. -/
theorem opens (xs : List Char) : Opens "export".toList (Cursor.lastOf none e.before) (e.heading.text ++ xs) := by
  obtain ⟨hne, hblank⟩ := e.heading.isSpace_space
  obtain ⟨b, space, hspace⟩ := List.exists_cons_of_ne_nil hne
  have htext := e.heading.text_append xs
  rw [hspace, List.cons_append] at htext
  exact ⟨e.stopsBefore, b, _, hblank b (hspace ▸ List.mem_cons_self), htext⟩

/-- What stands between the beginnings of two headings. -/
theorem exists_between (h : e'.before.length < e.before.length) : ∃ d, d ≠ [] ∧ e.before = e'.before ++ d ∧
    d ++ (e.heading.text ++ (e.name ++ e.after)) = e'.heading.text ++ (e'.name ++ e'.after) := by
  have hbegins : ∀ e : Exported content, e.before <+: content := fun e => ⟨_, e.content_eq.symm⟩
  obtain ⟨d, hd⟩ := List.prefix_of_prefix_length_le (hbegins e') (hbegins e) (Nat.le_of_lt h)
  refine ⟨d, ?_, hd.symm, ?_⟩
  · rintro rfl
    rw [← hd, List.append_nil] at h
    exact Nat.lt_irrefl _ h
  · have heq := e.content_eq.symm.trans e'.content_eq
    rwa [← hd, List.append_assoc, List.append_cancel_left_eq] at heq

/-- No heading begins within another one. -/
theorem start_le_of_lt (h : e'.before.length < e.before.length) : e'.span.start ≤ e.before.length := by
  obtain ⟨d, hne, hbefore, heq⟩ := e.exists_between e' h
  rw [hbefore, List.length_append]
  refine Nat.add_le_add_left ?_ _
  by_contra hlt
  have hquiet := e'.heading.quiet_tail (e'.name ++ e'.after)
  obtain ⟨r, hr⟩ : d <+: e'.heading.text :=
    List.prefix_of_prefix_length_le ⟨_, heq⟩ (List.prefix_append ..) (by omega)
  have hrest : e.heading.text ++ (e.name ++ e.after) = r ++ (e'.name ++ e'.after) := by
    rwa [← hr, List.append_assoc, List.append_cancel_left_eq] at heq
  cases r with
  | nil =>
    rw [List.append_nil] at hr
    exact absurd (Nat.le_of_eq (congrArg List.length hr.symm)) hlt
  | cons x r =>
    obtain ⟨y, d, rfl⟩ := List.exists_cons_of_ne_nil hne
    obtain ⟨rfl, htail⟩ := List.cons.inj (hr.trans e'.heading.text_eq_cons)
    have hopens := e.opens (e.name ++ e.after)
    rw [hrest, hbefore, Cursor.lastOf_append] at hopens
    rw [← htail] at hquiet
    exact (quiet_append.mp hquiet).2.1 hopens

/-- A name that the `export` of another one stands in is that `export`. -/
theorem span_eq_opening (hstart : e'.before.length < e.before.length)
    (hstop : e.before.length < e'.span.start + e'.name.length) : e'.span = e.opening := by
  have hle := e.start_le_of_lt e' hstart
  obtain ⟨d, -, hbefore, heq⟩ := e.exists_between e' hstart
  rw [hbefore, List.length_append] at hle hstop
  obtain ⟨w, rfl⟩ : e'.heading.text <+: d :=
    List.prefix_of_prefix_length_le (List.prefix_append ..) ⟨_, heq⟩ (Nat.le_of_add_le_add_left hle)
  rw [List.append_assoc, List.append_cancel_left_eq] at heq
  cases w with
  | nil =>
    have hname : e'.name = "export".toList := by
      rw [List.nil_append, Heading.text_eq, List.append_assoc] at heq
      exact eq_of_append_eq e'.isWord_name (isWord_of_mem_headingWords (by decide)) e'.stopsWord_after e.stopsWord_tail
        heq.symm
    rw [span, opening, hname, hbefore, List.append_nil, List.length_append]
  | cons y w =>
    -- A character of the name stands in front of the `export`, which then opens nothing.
    obtain ⟨x, hx, hlast⟩ := Cursor.exists_mem_lastOf (List.cons_ne_nil y w)
      (Cursor.lastOf none (e'.before ++ e'.heading.text))
    have hlength : (y :: w).length ≤ e'.name.length := by
      simp only [span, List.length_append] at hstop
      omega
    have hword : y :: w <+: e'.name := List.prefix_of_prefix_length_le ⟨_, heq⟩ (List.prefix_append ..) hlength
    have hstops := e.stopsBefore
    rw [hbefore, ← List.append_assoc, Cursor.lastOf_append, hlast] at hstops
    rw [Option.any_some, e'.isWord_name x (hword.subset hx)] at hstops
    cases hstops

/-- An exported name is told by where it starts. -/
theorem eq_of_start_eq (h : e.span.start = e'.span.start) : e = e' := by
  have hlt := e.length_before_lt
  have hlt' := e'.length_before_lt
  rcases Nat.lt_trichotomy e.before.length e'.before.length with hless | heq | hless
  · have hle := e'.start_le_of_lt e hless
    omega
  · exact e.eq_of_length_before_eq e' heq
  · have hle := e.start_le_of_lt e' hless
    omega

end Exported

end Conformance.Export
