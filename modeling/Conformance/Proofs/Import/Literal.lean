import Conformance.Check.Imports
import Conformance.Proofs.Pattern.Fitting
import Conformance.Proofs.Pattern.Scan
import Mathlib.Data.List.Nodup

/-!
# The path literals behind imports

Every import is read off a path in quotes, its literal (`found`, `literals`). A literal is told by where it starts, and
as well by where it ends (`IsLiteral.eq_of_start_eq`, `IsLiteral.eq_of_stop_eq`), and each of the two patterns for
imports finds it at most once, since matches of one pattern do not overlap and each ends with its literal.

Matches of different patterns may overlap, however. A literal is behind two imports iff an import statement and a
re-export end together (`nodup_literals_iff`), and that happens: `import` in a comment between the names of a re-export
begins a statement that ends where the re-export does (`not_nodup_literals_commentedNames`).
-/

namespace Conformance.Import

open Pattern

/-! ## Literals -/

/-- A path in quotes: its characters, none of which is a quotation mark, between two quotation marks. -/
structure IsLiteral (content : List Char) (l : Span) : Prop where
  quoted : ∃ before q r after, content = before ++ q :: (l.text ++ r :: after) ∧ l.start = before.length + 1 ∧
    isQuote q = true ∧ isQuote r = true
  plain : ∀ x ∈ l.text, isQuote x = false

/-- What stands before the first quotation mark of a text. -/
theorem takeWhile_of_plain {t after : List Char} {q : Char} (ht : ∀ x ∈ t, isQuote x = false) (hq : isQuote q = true) :
    (t ++ q :: after).takeWhile (!isQuote ·) = t := by
  rw [List.takeWhile_append_of_pos (fun x hx => by rw [ht x hx]; rfl), List.takeWhile_cons_of_neg (by simp [hq]),
    List.append_nil]

namespace IsLiteral

variable {content : List Char} {l l' : Span}

/-- A literal goes to the next quotation mark. -/
theorem text_eq (h : IsLiteral content l) : l.text = (content.drop l.start).takeWhile (!isQuote ·) := by
  obtain ⟨before, q, r, after, rfl, hstart, -, hr⟩ := h.quoted
  have hdrop : (before ++ q :: (l.text ++ r :: after)).drop l.start = l.text ++ r :: after := by
    rw [hstart, List.append_cons]
    exact List.drop_left' (List.length_append ..)
  rw [hdrop, takeWhile_of_plain h.plain hr]

/-- A literal goes back to the last quotation mark. -/
theorem reverse_text_eq (h : IsLiteral content l) :
    l.text.reverse = (content.take (l.start + l.text.length)).reverse.takeWhile (!isQuote ·) := by
  obtain ⟨before, q, r, after, rfl, hstart, hq, -⟩ := h.quoted
  have htake : (before ++ q :: (l.text ++ r :: after)).take (l.start + l.text.length) = before ++ q :: l.text := by
    rw [← List.cons_append, ← List.append_assoc]
    apply List.take_left'
    simp only [List.length_append, List.length_cons, hstart]
    omega
  rw [htake, List.reverse_append, List.reverse_cons, List.append_assoc, List.singleton_append]
  exact (takeWhile_of_plain (fun x hx => h.plain x (List.mem_reverse.mp hx)) hq).symm

theorem eq_of_start_eq (h : IsLiteral content l) (h' : IsLiteral content l') (heq : l.start = l'.start) : l = l' := by
  have htext : l.text = l'.text := by rw [h.text_eq, h'.text_eq, heq]
  cases l
  cases l'
  simp_all

theorem eq_of_stop_eq (h : IsLiteral content l) (h' : IsLiteral content l')
    (heq : l.start + l.text.length = l'.start + l'.text.length) : l = l' := by
  have htext : l.text = l'.text := by
    rw [← List.reverse_inj, h.reverse_text_eq, h'.reverse_text_eq, heq]
  apply h.eq_of_start_eq h'
  rw [htext] at heq
  omega

end IsLiteral

/-! ## Literals of matches -/

/-- The match ends with the literal, which it marks. -/
structure EndsWith (content : List Char) (m : Match) (l : Span) : Prop where
  marked : m.marked = some l
  literal : IsLiteral content l
  start_lt : m.whole.start < l.start
  stop_eq : m.stop = l.start + l.text.length + 1

/-- What a path in quotes matches and marks. -/
theorem exists_of_mem_ends_quotedPath {c d : Cursor} (h : d ∈ (inOrder [quotedPath]).ends c) :
    ∃ q path r, c.Reaches (q :: (path ++ [r])) d ∧ d.marked = some ⟨c.offset + 1, path⟩ ∧ isQuote q = true ∧
      isQuote r = true ∧ ∀ x ∈ path, isQuote x = false := by
  have hchar : ∀ {c d : Cursor}, d ∈ (char isQuote).ends c →
      ∃ q, isQuote q = true ∧ c.Reaches [q] d ∧ d.marked = c.marked := by
    intro c d h
    rw [ends] at h
    split at h
    · cases h
    · rename_i q xs hrest
      obtain ⟨hq, h⟩ := List.mem_ite_nil_right.mp h
      obtain rfl := List.mem_singleton.mp h
      exact ⟨q, hq, ⟨hrest, rfl⟩, rfl⟩
  obtain ⟨d', h, hlast⟩ := List.mem_flatMap.mp h
  obtain rfl := List.mem_singleton.mp hlast
  obtain ⟨c₁, hc₁, h⟩ := List.mem_flatMap.mp h
  obtain ⟨c₂, hc₂, h⟩ := List.mem_flatMap.mp h
  obtain ⟨c₃, hc₃, hlast⟩ := List.mem_flatMap.mp h
  obtain rfl := List.mem_singleton.mp hlast
  obtain ⟨q, hq, hreach₁, -⟩ := hchar hc₁
  obtain ⟨e, he, rfl⟩ := List.mem_map.mp hc₂
  obtain ⟨path, hpath, hplain⟩ := exists_of_mem_ends (P := fun x => isQuote x = false) he
  obtain ⟨r, hr, hreach₃, hmarked⟩ := hchar hc₃
  have hreach₂ : c₁.Reaches path { e with marked := some (c₁.upTo e) } := ⟨hpath.rest, hpath.offset⟩
  refine ⟨q, path, r, hreach₁.trans (hreach₂.trans hreach₃), ?_, hq, hr, hplain ?_⟩
  · have hoffset : c₁.offset = c.offset + 1 := hreach₁.offset
    rw [hmarked, ← hoffset]
    exact congrArg some hpath.upTo_eq
  · rw [only_greedily]
    intro x hx
    simp only [Bool.and_eq_true, Bool.not_eq_true'] at hx
    exact hx.1

/-- **A match of a pattern that ends with a path in quotes ends with a literal.** -/
theorem exists_endsWith_of_mem_scan (ps : List Pattern) {content : List Char} {m : Match}
    (h : m ∈ (inOrder (ps ++ [quotedPath])).scan content) : ∃ l, EndsWith content m l := by
  obtain ⟨c, u, -, -, hm, rfl, hoffset⟩ := foundIn_of_mem_scanFrom h
  obtain ⟨d, hd, rfl⟩ := exists_of_matchAt? hm
  rw [ends_inOrder_append] at hd
  obtain ⟨e, he, hd⟩ := List.mem_flatMap.mp hd
  obtain ⟨t, ht, -⟩ := exists_of_mem_ends (P := fun _ => True) he
  obtain ⟨q, path, r, hreach, hmarked, hq, hr, hplain⟩ := exists_of_mem_ends_quotedPath hd
  have hwhole : c.upTo d = ⟨c.offset, t ++ q :: (path ++ [r])⟩ := (ht.trans hreach).upTo_eq
  have heoffset := ht.offset
  refine ⟨⟨e.offset + 1, path⟩, hmarked, ⟨⟨u ++ t, q, r, d.rest, ?_, ?_, hq, hr⟩, hplain⟩, ?_, ?_⟩
  · rw [ht.rest, hreach.rest]
    simp only [List.append_assoc, List.cons_append, List.nil_append]
  · show e.offset + 1 = (u ++ t).length + 1
    rw [List.length_append]
    omega
  · show c.offset < e.offset + 1
    omega
  · rw [Match.stop, hwhole]
    simp only [List.length_append, List.length_cons, List.length_nil]
    omega

/-- The starts of the literals that one pattern finds. -/
theorem pairwise_literals_scan {p : Pattern} {content : List Char}
    (h : ∀ m ∈ p.scan content, ∃ l, EndsWith content m l) :
    ((p.scan content).filterMap (·.marked)).Pairwise fun l l' => l.start < l'.start := by
  rw [List.pairwise_filterMap]
  apply (pairwise_scan p content).imp_of_mem
  intro m n hm hn hle l hl l' hl'
  obtain ⟨k, hk⟩ := h m hm
  obtain ⟨k', hk'⟩ := h n hn
  obtain rfl := Option.some.inj (hk.marked.symm.trans hl)
  obtain rfl := Option.some.inj (hk'.marked.symm.trans hl')
  have := hk.stop_eq
  have := hk'.start_lt
  omega

/-! ## All imports of a text -/

theorem exists_endsWith_statement {content : List Char} : ∀ m ∈ statement.scan content, ∃ l, EndsWith content m l :=
  fun _ => exists_endsWith_of_mem_scan [wordEdge, text "import", blanks 1, optionalWord "type",
    optional (inOrder [lazily 1 isClauseChar, blanks 1, text "from", blanks 1])]

theorem exists_endsWith_reexport {content : List Char} : ∀ m ∈ reexport.scan content, ∃ l, EndsWith content m l :=
  fun _ => exists_endsWith_of_mem_scan [wordEdge, text "export", blanks 1, optionalWord "type",
    alt (char (· == '*')) (inOrder [char (· == '\x7b'), greedily 0 (· != '\x7d'), char (· == '\x7d')]),
    optional (inOrder [blanks 1, text "as", blanks 1, greedily 1 Text.isWord]), blanks 1, text "from", blanks 1]

/-- The matches that state the imports of a text, in the order of the imports. -/
def found (content : List Char) : List Match :=
  (statement.scan content ++ reexport.scan content).mergeSort fun m n => m.whole.start ≤ n.whole.start

/-- The literals behind the imports of a text, in the order of the imports. -/
def literals (content : List Char) : List Span := (found content).filterMap (·.marked)

section All

variable (content : List Char)

theorem all_eq_map_found : all content = (found content).map ofMatch := by
  rw [all, found, List.map_mergeSort]
  intro m _ n _
  rfl

theorem perm_found : (found content).Perm (statement.scan content ++ reexport.scan content) := List.mergeSort_perm _ _

theorem perm_literals : (literals content).Perm
    ((statement.scan content).filterMap (·.marked) ++ (reexport.scan content).filterMap (·.marked)) := by
  rw [← List.filterMap_append]
  exact (perm_found content).filterMap _

theorem exists_endsWith_of_mem_found {m : Match} (h : m ∈ found content) : ∃ l, EndsWith content m l := by
  rcases List.mem_append.mp ((perm_found content).mem_iff.mp h) with h | h
  · exact exists_endsWith_statement m h
  · exact exists_endsWith_reexport m h

/-- The literals that one pattern finds are different ones. -/
theorem nodup_literals_scan {p : Pattern} (h : ∀ m ∈ p.scan content, ∃ l, EndsWith content m l) :
    ((p.scan content).filterMap (·.marked)).Nodup := by
  apply (pairwise_literals_scan h).imp
  rintro l l' hlt rfl
  exact absurd hlt (Nat.lt_irrefl _)

/-- **No literal is behind more than two imports.** -/
theorem count_literals_le (l : Span) : (literals content).count l ≤ 2 := by
  have hstatement := List.nodup_iff_count_le_one.mp (nodup_literals_scan content exists_endsWith_statement) l
  have hreexport := List.nodup_iff_count_le_one.mp (nodup_literals_scan content exists_endsWith_reexport) l
  rw [(perm_literals content).count_eq, List.count_append]
  omega

/-- The literals are those of the imports, one for each, and all in quotes in the text. -/
theorem forall₂_found_literals : List.Forall₂ (EndsWith content) (found content) (literals content) := by
  have hfound : ∀ m ∈ found content, ∃ l, EndsWith content m l := fun _ => exists_endsWith_of_mem_found content
  rw [literals]
  generalize found content = ms at hfound ⊢
  induction ms with
  | nil => exact .nil
  | cons m ms ih =>
    obtain ⟨⟨l, hl⟩, hms⟩ := List.forall_mem_cons.mp hfound
    rw [List.filterMap_cons_some hl.marked]
    exact .cons hl (ih hms)

/-- Literals with one start are one literal. -/
theorem nodup_map_start_literals_iff : ((literals content).map (·.start)).Nodup ↔ (literals content).Nodup := by
  constructor
  · exact List.Nodup.of_map _
  · intro h
    apply h.map_on
    intro l hl l' hl' heq
    have hliteral : ∀ l ∈ literals content, IsLiteral content l := by
      intro l hl
      obtain ⟨m, hm, hmarked⟩ := List.mem_filterMap.mp hl
      obtain ⟨k, hk⟩ := exists_endsWith_of_mem_found content hm
      exact Option.some.inj (hk.marked.symm.trans hmarked) ▸ hk.literal
    exact (hliteral l hl).eq_of_start_eq (hliteral l' hl') heq

/-- **A literal is behind two imports iff an import statement and a re-export end together.** Apart from that, the
literals behind the imports of a text stand at different places; in any case, no more than two imports share one. -/
theorem nodup_literals_iff :
    all content = (found content).map ofMatch ∧
      List.Forall₂ (EndsWith content) (found content) (literals content) ∧
      (((literals content).map (·.start)).Nodup ↔
        ∀ m ∈ statement.scan content, ∀ n ∈ reexport.scan content, m.stop ≠ n.stop) ∧
      ∀ l, (literals content).count l ≤ 2 := by
  refine ⟨all_eq_map_found content, forall₂_found_literals content, ?_, count_literals_le content⟩
  rw [nodup_map_start_literals_iff, (perm_literals content).nodup_iff, List.nodup_append]
  constructor
  · rintro ⟨-, -, hdisjoint⟩ m hm n hn hstop
    obtain ⟨l, hl⟩ := exists_endsWith_statement m hm
    obtain ⟨k, hk⟩ := exists_endsWith_reexport n hn
    have hend : l.start + l.text.length = k.start + k.text.length := by
      have := hl.stop_eq
      have := hk.stop_eq
      omega
    have hsame : l = k := hl.literal.eq_of_stop_eq hk.literal hend
    exact hdisjoint l (List.mem_filterMap.mpr ⟨m, hm, hl.marked⟩) k (List.mem_filterMap.mpr ⟨n, hn, hk.marked⟩) hsame
  · intro h
    refine ⟨nodup_literals_scan content exists_endsWith_statement,
      nodup_literals_scan content exists_endsWith_reexport, ?_⟩
    rintro l hl k hk rfl
    obtain ⟨m, hm, hmarked⟩ := List.mem_filterMap.mp hl
    obtain ⟨n, hn, hmarked'⟩ := List.mem_filterMap.mp hk
    obtain ⟨l₁, hl₁⟩ := exists_endsWith_statement m hm
    obtain ⟨l₂, hl₂⟩ := exists_endsWith_reexport n hn
    obtain rfl := Option.some.inj (hl₁.marked.symm.trans hmarked)
    obtain rfl := Option.some.inj (hl₂.marked.symm.trans hmarked')
    exact h m hm n hn (hl₁.stop_eq.trans hl₂.stop_eq.symm)

end All

/-- **A comment between the names of a re-export can make two imports of one literal**: `import` in it begins a
statement that ends where the re-export does. -/
theorem not_nodup_literals_commentedNames :
    ¬ ((literals "export \x7b\n  a, // to import\n  b,\n\x7d from './x'".toList).map (·.start)).Nodup := by
  have hstarts : (statement.scan "export \x7b\n  a, // to import\n  b,\n\x7d from './x'".toList).filterMap (·.marked) =
      [⟨40, "./x".toList⟩] := by decide +kernel
  have hstarts' : (reexport.scan "export \x7b\n  a, // to import\n  b,\n\x7d from './x'".toList).filterMap (·.marked) =
      [⟨40, "./x".toList⟩] := by decide +kernel
  rw [nodup_map_start_literals_iff, (perm_literals _).nodup_iff, hstarts, hstarts']
  decide +kernel

end Conformance.Import
