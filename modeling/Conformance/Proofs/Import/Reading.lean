import Conformance.Proofs.Import.Form
import Conformance.Proofs.Import.Literal
import Conformance.Proofs.Pattern.Word

/-!
# How a statement is read

The pattern for import statements and the one for re-exports prefer, at the beginning of a statement of their kind, the
match that ends behind the path of the statement and marks the path (`Declaration.matchAt?_pattern`).

Two of their parts have a choice. The word `type` is taken only where it stands, since no clause begins with it. The
lazy run for the clause tries to end at each place within the clause, but what it stops before would have to be white
space up to the word before the path, and a clause does not end with white space (`find_clause`).
-/

namespace Conformance.Import

open Pattern Text

variable {α : Type} {k : Cursor → Option α} {a : α} {c : Cursor} {ps : List Pattern} {x : Char} {w xs : List Char}

/-! ## Words -/

/-- The word that opens a statement. -/
theorem find_keyword (κ : Kind) (hlast : c.last.any isWord = false) (h : c.rest = κ.keyword.toList ++ ' ' :: xs)
    (hxs : ∀ y ∈ xs.head?, isBlank y = false) :
    (inOrder (wordEdge :: text κ.keyword :: blanks 1 :: ps)).find k c =
      (inOrder ps).find k (c.past (κ.keyword.toList ++ [' '])) := by
  have hfirst : c.rest.head?.any isWord = true := by
    rw [h]
    cases κ with
    | statement => exact (by decide : isWord 'i' = true)
    | reexport => exact (by decide : isWord 'e' = true)
  have hedge : atWordEdge c = true := by
    rw [atWordEdge, hlast, hfirst]
    rfl
  rw [find_inOrder_cons, find, if_pos hedge, find_word h hxs]

/-- The word before the path. -/
theorem find_fromWord (h : c.rest = fromWord ++ xs) (hxs : ∀ y ∈ xs.head?, isBlank y = false) :
    (inOrder (blanks 1 :: text "from" :: blanks 1 :: ps)).find k c = (inOrder ps).find k (c.past fromWord) := by
  have hrest : c.rest = ' ' :: ("from".toList ++ ' ' :: xs) := h
  have hletter : isBlank 'f' = false := by decide
  have hfirst : ∀ y ∈ ("from".toList ++ ' ' :: xs).head?, isBlank y = false := by simpa using hletter
  have hpast := Cursor.rest_past (t := [' ']) hrest
  rw [find_inOrder_cons, find_blank hrest (by decide) hfirst, find_word hpast hxs, ← Cursor.past_append]
  rfl

/-! ## Paths -/

theorem isBlank_of_isQuote (hx : isQuote x = true) : isBlank x = false := by
  rw [isQuote, Bool.or_eq_true, beq_iff_eq, beq_iff_eq] at hx
  rcases hx with rfl | rfl <;> decide

theorem isWord_of_isQuote (hx : isQuote x = true) : isWord x = false := by
  rw [isQuote, Bool.or_eq_true, beq_iff_eq, beq_iff_eq] at hx
  rcases hx with rfl | rfl <;> decide

/-- A path in quotes is matched as a whole and marked without its quotes. -/
theorem find_quotedPath (d : Declaration) (h : c.rest = d.quoted ++ xs)
    (hk : k { c.past d.quoted with marked := some ⟨c.offset + 1, d.path.chars⟩ } = some a) :
    (inOrder [quotedPath]).find k c = some a := by
  have hquote := d.isQuote_quote
  have hplain : ∀ x ∈ d.path.chars, (!isQuote x && x != '\n') = true := by
    intro x hx
    obtain ⟨hother, hblank⟩ := d.path.plain x hx
    have hne : x ≠ '\n' := by
      rintro rfl
      exact absurd hblank (by decide)
    simp [hother, hne]
  have hends : ∀ x ∈ (d.quote :: xs).head?, (!isQuote x && x != '\n') = false := by simp [hquote]
  have hfirst : c.rest = d.quote :: (d.path.chars ++ d.quote :: xs) := by
    rw [h]
    simp [Declaration.quoted]
  have hpath := Cursor.rest_past (t := [d.quote]) hfirst
  have hlast := Cursor.rest_past hpath
  have hmarked : (c.past [d.quote]).upTo ((c.past [d.quote]).past d.path.chars) = ⟨c.offset + 1, d.path.chars⟩ :=
    (Cursor.reaches_past hpath).upTo_eq
  have hpast : c.past d.quoted = ((c.past [d.quote]).past d.path.chars).past [d.quote] := by
    rw [← Cursor.past_append, ← Cursor.past_append]
    rfl
  rw [hpast, ← hmarked] at hk
  rw [find_inOrder_cons, quotedPath, find_inOrder_cons, find_char hfirst hquote, find_inOrder_cons]
  apply find_greedily hpath hplain hends (List.length_pos_iff.mpr d.path.ne_nil)
  let marked : Cursor := { (c.past [d.quote]).past d.path.chars with
    marked := some ((c.past [d.quote]).upTo ((c.past [d.quote]).past d.path.chars)) }
  exact (find_char (c := marked) hlast hquote).trans hk

/-! ## Clauses -/

theorem isQuote_of_isClauseChar (hx : isClauseChar x = true) : isQuote x = false := by
  cases hq : isQuote x with
  | false => rfl
  | true =>
    rw [isQuote, Bool.or_eq_true, beq_iff_eq, beq_iff_eq] at hq
    rcases hq with rfl | rfl <;> revert hx <;> decide

/-- If a text ends with the word before the path and splits into white space, `from` and white space, then what stands
before that word is white space too. -/
theorem isBlank_of_append_fromWord {v s e : List Char} (h : v ++ fromWord = s ++ ("from".toList ++ e))
    (hs : ∀ x ∈ s, isBlank x = true) (he : ∀ x ∈ e, isBlank x = true) : ∀ x ∈ v, isBlank x = true := by
  -- Seen from the end, the white space goes to the last letter of `from` on both sides.
  have hreverse : ' ' :: ("from".toList.reverse ++ ' ' :: v.reverse) =
      e.reverse ++ ("from".toList.reverse ++ s.reverse) := by
    simpa [fromWord] using congrArg List.reverse h
  have hdrop := congrArg (List.dropWhile isBlank) hreverse
  have hblank : isBlank ' ' = true := by decide
  have hletter : isBlank 'm' = false := by decide
  rw [List.dropWhile_append_of_pos fun x hx => he x (List.mem_reverse.mp hx)] at hdrop
  have hspace : ' ' :: v.reverse = s.reverse := by simpa [List.dropWhile, hblank, hletter] using hdrop
  intro x hx
  apply hs x
  rw [← List.mem_reverse, ← hspace]
  exact List.mem_cons_of_mem _ (List.mem_reverse.mpr hx)

/-- Before a part of a clause that is no white space, there is no word `from` with a path behind it. -/
theorem find_from_eq_none {q : Char} (h : c.rest = w ++ (fromWord ++ q :: xs)) (hq : isQuote q = true)
    (hw : ∀ x ∈ w, isClauseChar x = true) (hother : ∃ z ∈ w, isBlank z = false) :
    (inOrder [blanks 1, text "from", blanks 1]).find ((inOrder [quotedPath]).find k) c = none := by
  rw [find_eq, List.findSome?_eq_none_iff]
  intro d hd
  apply find_of_ends_eq_nil
  rw [List.eq_nil_iff_forall_not_mem]
  intro e he
  obtain ⟨t, ht, s, t', rfl, hs, f, b', rfl, hf, b, n, rfl, hb, rfl⟩ := exists_fitting_of_mem_ends hd
  obtain ⟨q', path, r, hreach, -, hq', -⟩ := exists_of_mem_ends_quotedPath he
  obtain rfl := fits_text.mp hf
  have hsblank := (fits_blanks.mp hs).2
  have hbblank := (fits_blanks.mp hb).2
  have hrest : (w ++ fromWord) ++ q :: xs = (s ++ ("from".toList ++ b)) ++ q' :: (path ++ r :: e.rest) := by
    have hboth := ht.rest
    rw [h, hreach.rest] at hboth
    simpa using hboth
  -- Both readings go to the first quotation mark.
  have hleft : ∀ x ∈ w ++ fromWord, isClauseChar x = true :=
    List.forall_mem_append.mpr ⟨hw, List.all_eq_true.mp (by decide)⟩
  have hright : ∀ x ∈ s ++ ("from".toList ++ b), isClauseChar x = true := by
    rw [List.forall_mem_append, List.forall_mem_append]
    exact ⟨fun x hx => isClauseChar_of_isBlank (hsblank x hx), List.all_eq_true.mp (by decide),
      fun x hx => isClauseChar_of_isBlank (hbblank x hx)⟩
  have heq : w ++ fromWord = s ++ ("from".toList ++ b) := by
    rw [← takeWhile_of_plain (fun x hx => isQuote_of_isClauseChar (hleft x hx)) hq, hrest,
      takeWhile_of_plain (fun x hx => isQuote_of_isClauseChar (hright x hx)) hq']
  obtain ⟨z, hz, hnot⟩ := hother
  rw [isBlank_of_append_fromWord heq hsblank hbblank z hz] at hnot
  cases hnot

/-- **A clause** is matched up to the word before the path. -/
theorem find_clause {q : Char} (h : c.rest = w ++ (fromWord ++ q :: xs)) (hq : isQuote q = true) (hne : w ≠ [])
    (hw : ∀ x ∈ w, isClauseChar x = true) (hlast : ∀ z ∈ w.getLast?, isBlank z = false)
    (hk : (inOrder [quotedPath]).find k (c.past (w ++ fromWord)) = some a) :
    (inOrder [optional (inOrder [lazily 1 isClauseChar, blanks 1, text "from", blanks 1]), quotedPath]).find k c =
      some a := by
  rw [find_inOrder_cons]
  apply find_optional_some
  rw [find_inOrder_cons]
  apply find_lazily h hw (List.length_pos_iff.mpr hne)
  · intro u v hsplit hv _
    have hrest : c.rest = u ++ (v ++ (fromWord ++ q :: xs)) := by rw [h, hsplit, List.append_assoc]
    apply find_from_eq_none (Cursor.rest_past hrest) hq
    · intro x hx
      exact hw x (hsplit ▸ List.mem_append_right u hx)
    · refine ⟨v.getLast hv, List.getLast_mem hv, hlast _ ?_⟩
      rw [hsplit, List.getLast?_append_of_ne_nil u hv, List.getLast?_eq_some_getLast hv]
      rfl
  · have hnext : ∀ y ∈ (q :: xs).head?, isBlank y = false := by simpa using isBlank_of_isQuote hq
    rw [find_fromWord (Cursor.rest_past h) hnext, ← Cursor.past_append]
    exact hk

/-! ## Statements -/

/-- The pattern for statements of a kind. -/
def Kind.pattern : Kind → Pattern
  | statement => Import.statement
  | reexport => Import.reexport

/-- What a pattern has behind its keyword. -/
def Kind.parts : Kind → List Pattern
  | statement =>
    [optionalWord "type", optional (inOrder [lazily 1 isClauseChar, blanks 1, text "from", blanks 1]), quotedPath]
  | reexport =>
    [optionalWord "type",
     alt (char (· == '*')) (inOrder [char (· == '\x7b'), greedily 0 (· != '\x7d'), char (· == '\x7d')]),
     optional (inOrder [blanks 1, text "as", blanks 1, greedily 1 Text.isWord]), blanks 1, text "from", blanks 1,
     quotedPath]

theorem Kind.pattern_eq (κ : Kind) :
    κ.pattern = inOrder (wordEdge :: text κ.keyword :: blanks 1 :: κ.parts) := by
  cases κ <;> rfl

/-- A name behind a star or braces, if there is one, and the word before the path. -/
theorem find_asName {q : Char} (alias? : Option Name) (h : c.rest = asName alias? ++ (fromWord ++ q :: xs))
    (hq : isQuote q = true) (hk : (inOrder ps).find k (c.past (asName alias? ++ fromWord)) = some a) :
    (inOrder (optional (inOrder [blanks 1, text "as", blanks 1, greedily 1 isWord]) :: blanks 1 :: text "from" ::
      blanks 1 :: ps)).find k c = some a := by
  have hspace : isBlank ' ' = true := by decide
  have hnext : ∀ y ∈ (q :: xs).head?, isBlank y = false := by simpa using isBlank_of_isQuote hq
  rw [find_inOrder_cons]
  cases alias? with
  | none =>
    have hrest : c.rest = ' ' :: ("from".toList ++ ' ' :: q :: xs) := h
    have hother : (inOrder [text "as", blanks 1, greedily 1 isWord]).ends (c.past [' ']) = [] := by
      have hhead : (c.past [' ']).rest.head? = some 'f' := by
        rw [Cursor.rest_past (t := [' ']) hrest]
        rfl
      exact ends_eq_nil (by simp) (by simp) hhead
    have hnone : (inOrder [blanks 1, text "as", blanks 1, greedily 1 isWord]).find
        ((inOrder (blanks 1 :: text "from" :: blanks 1 :: ps)).find k) c = none := by
      have hletter : isBlank 'f' = false := by decide
      rw [find_inOrder_cons, find_blank hrest hspace (by simpa using hletter)]
      exact find_of_ends_eq_nil hother
    rw [find_optional_none hnone, find_fromWord h hnext]
    exact hk
  | some name =>
    have hrest : c.rest = ' ' :: ("as".toList ++ ' ' :: (name.chars ++ (fromWord ++ q :: xs))) := by
      simpa [asName] using h
    have hletter : isBlank 'a' = false := by decide
    have hname : ∀ y ∈ (name.chars ++ (fromWord ++ q :: xs)).head?, isBlank y = false := by
      intro y hy
      rw [List.head?_append_of_ne_nil _ name.ne_nil] at hy
      exact isBlank_of_isWord (name.isWord_of_mem y (List.mem_of_mem_head? hy))
    have has := Cursor.rest_past (t := [' ']) hrest
    have hchars := Cursor.rest_past (t := "as".toList ++ [' ']) has
    have hfrom := Cursor.rest_past hchars
    apply find_optional_some
    rw [find_inOrder_cons, find_blank hrest hspace (by simpa using hletter), find_word has hname, find_inOrder_cons]
    apply find_greedily hchars name.isWord_of_mem (stopsWord_cons (by decide)) (List.length_pos_iff.mpr name.ne_nil)
    show (inOrder (blanks 1 :: text "from" :: blanks 1 :: ps)).find k _ = some a
    rw [find_fromWord hfrom hnext, ← Cursor.past_append, ← Cursor.past_append, ← Cursor.past_append]
    exact hk

/-- The word `type` does not stand where something else begins. -/
theorem not_opens_type {y : Char} (h : c.rest = y :: xs) (hy : y ≠ 't') : ¬ Opens "type".toList none c.rest := by
  rintro ⟨-, b, ys, -, heq⟩
  rw [h] at heq
  exact hy (List.cons.inj heq).1

/-- The word `type` does not stand where a clause begins. -/
theorem Clause.not_opens_type {q : Char} (clause : Clause) (h : c.rest = clause.text ++ (fromWord ++ q :: xs))
    (hq : isQuote q = true) : ¬ Opens "type".toList none c.rest := by
  have htype : "type".toList ∈ openers := by decide
  have havoids : Avoids "type".toList (clause.text ++ fromWord) :=
    avoids_clause htype clause (stopsWord_cons (by decide)) (avoids_fromWord htype)
  have hquiet : Quiet "type".toList (q :: xs) none (clause.text ++ fromWord) :=
    havoids.quiet (List.all_eq_true.mp (by decide)) (by decide) (stopsWord_cons (isWord_of_isQuote hq))
  obtain ⟨y, ys, htext, -⟩ := clause.exists_first
  rw [htext] at hquiet
  rw [h, htext]
  simpa using hquiet.1

/-- Behind `import` the path may follow at once. -/
theorem find_bare {q : Char} (h : c.rest = q :: xs) (hq : isQuote q = true)
    (hk : (inOrder [quotedPath]).find k c = some a) : (inOrder Kind.statement.parts).find k c = some a := by
  have hne : q ≠ 't' := by
    rintro rfl
    exact absurd hq (by decide)
  have hopens : ¬ OpensWith q (inOrder [lazily 1 isClauseChar, blanks 1, text "from", blanks 1]) := by
    intro hopens
    have hclause : isClauseChar q = true := by simpa [lazily, OpensWith, isNullable] using hopens
    rw [isQuote_of_isClauseChar hclause] at hq
    cases hq
  have hclause : (inOrder [lazily 1 isClauseChar, blanks 1, text "from", blanks 1]).ends c = [] :=
    ends_eq_nil rfl hopens (by rw [h]; rfl)
  show (inOrder (optionalWord "type" :: _)).find k c = some a
  rw [find_inOrder_cons, find_optionalWord_none (not_opens_type h hne), find_inOrder_cons,
    find_optional_none (find_of_ends_eq_nil hclause)]
  exact hk

/-- Behind `import` a clause may follow, with or without the word `type` before it. -/
theorem Clause.find_parts {q : Char} (typeOnly : Bool) (clause : Clause)
    (h : c.rest = typeWord typeOnly ++ (clause.text ++ (fromWord ++ q :: xs))) (hq : isQuote q = true)
    (hk : (inOrder [quotedPath]).find k (c.past (typeWord typeOnly ++ (clause.text ++ fromWord))) = some a) :
    (inOrder Kind.statement.parts).find k c = some a := by
  obtain ⟨y, ys, htext, hy⟩ := clause.exists_first
  have hclause : ∀ {c : Cursor}, c.rest = clause.text ++ (fromWord ++ q :: xs) →
      (inOrder [quotedPath]).find k (c.past (clause.text ++ fromWord)) = some a →
      (inOrder (Kind.statement.parts.drop 1)).find k c = some a := by
    intro c h hk
    exact find_clause h hq (by simp [htext]) clause.isClauseChar_of_mem clause.isBlank_of_mem_getLast? hk
  show (inOrder (optionalWord "type" :: _)).find k c = some a
  rw [find_inOrder_cons]
  cases typeOnly with
  | false =>
    rw [find_optionalWord_none (clause.not_opens_type h hq)]
    exact hclause h hk
  | true =>
    have hrest : c.rest = "type".toList ++ ' ' :: (clause.text ++ (fromWord ++ q :: xs)) := h
    have hnext : ∀ z ∈ (clause.text ++ (fromWord ++ q :: xs)).head?, isBlank z = false := by simpa [htext] using hy
    have hpast := Cursor.rest_past (t := "type".toList ++ [' ']) hrest
    apply find_optionalWord_some hrest hnext
    apply hclause hpast
    rw [← Cursor.past_append]
    exact hk

/-- Behind `export` a star may follow. -/
theorem find_reexportAll {q : Char} (alias? : Option Name)
    (h : c.rest = '*' :: (asName alias? ++ (fromWord ++ q :: xs))) (hq : isQuote q = true)
    (hk : (inOrder [quotedPath]).find k (c.past ('*' :: (asName alias? ++ fromWord))) = some a) :
    (inOrder Kind.reexport.parts).find k c = some a := by
  have hstar := Cursor.rest_past (t := ['*']) h
  show (inOrder (optionalWord "type" :: _)).find k c = some a
  rw [find_inOrder_cons, find_optionalWord_none (not_opens_type h (by decide)), find_inOrder_cons]
  apply find_alt_left
  rw [find_char h (by decide)]
  apply find_asName alias? hstar hq
  rw [← Cursor.past_append]
  exact hk

/-- Behind `export` names in braces may follow. -/
theorem Names.find_parts {q : Char} (names : Names) (h : c.rest = names.text ++ (fromWord ++ q :: xs))
    (hq : isQuote q = true) (hk : (inOrder [quotedPath]).find k (c.past (names.text ++ fromWord)) = some a) :
    (inOrder Kind.reexport.parts).find k c = some a := by
  have hrest : c.rest = '\x7b' :: (names.inner ++ '\x7d' :: (fromWord ++ q :: xs)) := by simpa [text] using h
  have hinner := Cursor.rest_past (t := ['\x7b']) hrest
  have hbrace := Cursor.rest_past hinner
  have hfrom := Cursor.rest_past (t := ['\x7d']) hbrace
  have hplain : ∀ x ∈ names.inner, (x != '\x7d') = true := fun x hx => bne_iff_ne.mpr (names.ne_brace x hx)
  have hstar : ∀ k : Cursor → Option α, (char (· == '*')).find k c = none := by
    intro k
    rw [find, hrest]
    rfl
  show (inOrder (optionalWord "type" :: _)).find k c = some a
  rw [find_inOrder_cons, find_optionalWord_none (not_opens_type hrest (by decide)), find_inOrder_cons,
    find_alt_right (hstar _), find_inOrder_cons, find_char hrest (by decide), find_inOrder_cons]
  apply find_greedily hinner hplain (by simp) (Nat.zero_le _)
  rw [find_inOrder_cons, find_char hbrace (by decide)]
  apply find_asName none hfrom hq
  rw [← Cursor.past_append, ← Cursor.past_append, ← Cursor.past_append]
  simpa [text, asName] using hk

/-- **What stands between the keyword and the path** is matched by the parts of the pattern up to the path. -/
theorem Form.find_parts (f : Form) {q : Char} (h : c.rest = f.body ++ q :: xs) (hq : isQuote q = true)
    (hk : (inOrder [quotedPath]).find k (c.past f.body) = some a) : (inOrder f.kind.parts).find k c = some a := by
  cases f with
  | bare => exact find_bare h hq hk
  | clause typeOnly clause => exact clause.find_parts typeOnly (by simpa [body] using h) hq hk
  | reexportAll alias? => exact find_reexportAll alias? (by simpa [body] using h) hq hk
  | reexportNamed names => exact names.find_parts (by simpa [body] using h) hq hk

/-- No white space stands behind the one behind the keyword. -/
theorem Form.isBlank_of_mem_head? (f : Form) {q : Char} (hq : isQuote q = true) :
    ∀ y ∈ (f.body ++ q :: xs).head?, isBlank y = false := by
  intro y hy
  cases f with
  | bare =>
    obtain rfl := Option.some.inj hy
    exact isBlank_of_isQuote hq
  | clause typeOnly clause =>
    cases typeOnly with
    | false =>
      obtain ⟨z, zs, htext, hz⟩ := clause.exists_first
      have hbody : (Form.clause false clause).body = z :: (zs ++ fromWord) := by
        show clause.text ++ fromWord = _
        rw [htext, List.cons_append]
      rw [hbody] at hy
      obtain rfl := Option.some.inj hy
      exact hz
    | true =>
      obtain rfl := Option.some.inj hy
      decide
  | reexportAll alias? =>
    obtain rfl := Option.some.inj hy
    decide
  | reexportNamed names =>
    obtain rfl := Option.some.inj hy
    decide

/-- The match of a statement that begins at an offset: it ends with the path, which is marked. -/
def Declaration.matchFrom (d : Declaration) (offset : Nat) : Match :=
  ⟨⟨offset, d.form.head ++ d.quoted⟩, some ⟨offset + d.form.head.length + 1, d.path.chars⟩⟩

/-- **The preferred match at a statement** is that of the statement, whatever stands behind it. -/
theorem Declaration.matchAt?_pattern (d : Declaration) {last : Option Char} (hlast : last.any isWord = false)
    (after : List Char) (offset : Nat) :
    d.form.kind.pattern.matchAt? ⟨last, d.form.head ++ d.quoted ++ after, offset, none⟩ =
      some (d.matchFrom offset) := by
  let c : Cursor := ⟨last, d.form.head ++ d.quoted ++ after, offset, none⟩
  have hrest : c.rest = d.form.head ++ (d.quoted ++ after) := List.append_assoc ..
  have hkeyword : c.rest = d.form.kind.keyword.toList ++ ' ' :: (d.form.body ++ (d.quoted ++ after)) := by
    rw [hrest, Form.head, List.append_assoc, List.cons_append]
  have hbody : (c.past (d.form.kind.keyword.toList ++ [' '])).rest = d.form.body ++ (d.quoted ++ after) :=
    Cursor.rest_past (by simpa using hkeyword)
  have hhead : (c.past (d.form.kind.keyword.toList ++ [' '])).past d.form.body = c.past d.form.head := by
    rw [← Cursor.past_append, Form.head, List.append_assoc]
    rfl
  have hfirst : ∀ y ∈ (d.form.body ++ (d.quoted ++ after)).head?, isBlank y = false :=
    d.form.isBlank_of_mem_head? d.isQuote_quote
  rw [matchAt?, Kind.pattern_eq, find_keyword d.form.kind hlast hkeyword hfirst]
  apply d.form.find_parts hbody d.isQuote_quote
  rw [hhead]
  apply find_quotedPath d (Cursor.rest_past hrest)
  rw [← Cursor.past_append]
  have hreach : c.Reaches (d.form.head ++ d.quoted) (c.past (d.form.head ++ d.quoted)) := Cursor.reaches_past rfl
  exact congrArg (fun s : Span => some (⟨s, some _⟩ : Match)) hreach.upTo_eq

end Conformance.Import
