import Conformance.Proofs.Import.Reading
import Mathlib.Data.List.Sort

/-!
# The imports that are found

In a text of statements and other lines each scan finds the statements of its kind and nothing else
(`Kind.scanFrom_source`): it passes over everything else, since its keyword opens nothing there
(`Kind.scanFrom_of_quiet`), and the match of a statement ends within the statement. So what is found are the imports of
the statements, one for each, in order and with their lines (`listing_source`).
-/

namespace Conformance.Import

open Pattern Text

/-! ## Quiet text -/

namespace Kind

variable (κ : Kind) {last : Option Char} {offset : Nat} {after : List Char}

theorem keyword_ne_nil : κ.keyword.toList ≠ [] := by
  cases κ <;> decide

/-- Nothing is matched where the keyword does not open a statement. -/
theorem matchAt?_of_not_opens {c : Cursor} (h : ¬ Opens κ.keyword.toList c.last c.rest) :
    κ.pattern.matchAt? c = none := by
  apply find_of_ends_eq_nil
  rw [List.eq_nil_iff_forall_not_mem, pattern_eq]
  intro d hd
  obtain ⟨e, he, hword⟩ := List.mem_flatMap.mp hd
  obtain ⟨hedge, he⟩ := List.mem_ite_nil_right.mp he
  obtain rfl := List.mem_singleton.mp he
  obtain ⟨b, ys, hb, hrest⟩ := exists_blank_of_mem_ends hword
  apply h
  refine ⟨?_, b, ys, hb, hrest⟩
  -- A word character stands behind the edge, so none stands before it.
  obtain ⟨x, xs, hkeyword⟩ := List.exists_cons_of_ne_nil κ.keyword_ne_nil
  have hx : isWord x = true := κ.isWord_of_mem_keyword x (hkeyword ▸ List.mem_cons_self)
  rw [atWordEdge, hrest, hkeyword, bne_iff_ne] at hedge
  simpa [hx] using hedge

/-- **Quiet text is passed over.** -/
theorem scanFrom_of_quiet {t : List Char} (h : Quiet κ.keyword.toList after last t) :
    κ.pattern.scanFrom last offset 0 (t ++ after) =
      κ.pattern.scanFrom (Cursor.lastOf last t) (offset + t.length) 0 after := by
  apply scanFrom_of_nowhere
  rintro u x v rfl offset
  exact κ.matchAt?_of_not_opens (quiet_append.mp h).2.1

end Kind

theorem Declaration.avoids_ending (d : Declaration) (keyword : List Char) : Avoids keyword d.ending := by
  rw [ending]
  split
  · exact .gap (by decide) .nil
  · exact .nil

/-- A statement of one kind is quiet for the keyword of the other. -/
theorem Declaration.quiet (d : Declaration) {κ : Kind} (hne : d.form.kind ≠ κ) {last : Option Char}
    {after : List Char} (hafter : StopsWord after) : Quiet κ.keyword.toList after last d.text := by
  have hword : ∀ c ∈ κ.keyword.toList, isWord c = true := κ.isWord_of_mem_keyword
  have hquote : isWord d.quote = false := isWord_of_isQuote d.isQuote_quote
  have hnot : d.quote ∉ κ.keyword.toList := by
    intro hmem
    rw [hword d.quote hmem] at hquote
    cases hquote
  have hgap : ∀ {last : Option Char} {t after : List Char}, Quiet κ.keyword.toList after (some d.quote) t →
      Quiet κ.keyword.toList after last (d.quote :: t) :=
    fun h => ⟨not_opens_of_gap hword hquote κ.keyword_ne_nil, h⟩
  have hlast : Quiet κ.keyword.toList after (Cursor.lastOf (some d.quote) d.path.chars) (d.quote :: d.ending) :=
    hgap ((d.avoids_ending _).quiet hword κ.keyword_ne_nil hafter)
  have hpath : Quiet κ.keyword.toList (d.quote :: (d.ending ++ after)) (some d.quote) d.path.chars :=
    quiet_of_not_isBlank (fun c hc => (d.path.plain c hc).2) (isBlank_of_isQuote d.isQuote_quote) hnot
  have hhead : Quiet κ.keyword.toList (d.quote :: (d.path.chars ++ d.quote :: (d.ending ++ after))) last d.form.head :=
    (d.form.avoids_head hne).quiet hword κ.keyword_ne_nil (stopsWord_cons hquote)
  have htext : d.text = d.form.head ++ d.quote :: (d.path.chars ++ d.quote :: d.ending) := by
    simp [Declaration.text, quoted]
  rw [htext, quiet_append]
  exact ⟨by simpa using hhead, hgap (quiet_append.mpr ⟨hpath, hlast⟩)⟩

/-! ## Matches -/

/-- The matches that the pattern of a kind finds in an item. -/
def Item.matches (κ : Kind) (offset : Nat) : Item → List Match
  | filler _ => []
  | declaration d => if d.form.kind = κ then [d.matchFrom offset] else []

/-- The matches that the pattern of a kind finds in the text of some items. -/
def matchesIn (κ : Kind) : Nat → List Item → List Match
  | _, [] => []
  | offset, i :: items => i.matches κ offset ++ matchesIn κ (offset + i.text.length + 1) items

/-- The imports of some items, with the offsets of their statements. -/
def importsIn : Nat → List Item → List Import
  | _, [] => []
  | offset, i :: items => (i.path?.map (⟨·, offset⟩)).toList ++ importsIn (offset + i.text.length + 1) items

/-- An item is scanned as a whole. -/
theorem Kind.scanFrom_item (κ : Kind) (i : Item) {last : Option Char} (hlast : last.any isWord = false) (offset : Nat)
    {after : List Char} (hafter : ∀ x ∈ after.head?, x = '\n') :
    κ.pattern.scanFrom last offset 0 (i.text ++ after) =
      i.matches κ offset ++ κ.pattern.scanFrom (Cursor.lastOf last i.text) (offset + i.text.length) 0 after := by
  have hstops : StopsWord after := by
    intro c hc
    rw [hafter c hc]
    decide
  cases i with
  | filler line =>
    have hnone : occurs κ.keyword.toList line.chars = false := by
      cases κ with
      | statement => exact line.noImport
      | reexport => exact line.noExport
    have hlineFeed : '\n' ∉ κ.keyword.toList := by cases κ <;> decide
    exact κ.scanFrom_of_quiet (quiet_of_not_occurs hnone hlineFeed hafter)
  | declaration d =>
    by_cases hkind : d.form.kind = κ
    · have hne : d.form.head ++ d.quoted ≠ [] := by simp [Form.head]
      have hending : ∀ last, Quiet κ.keyword.toList after last d.ending := fun _ =>
        (d.avoids_ending _).quiet κ.isWord_of_mem_keyword κ.keyword_ne_nil hstops
      have hmatch := d.matchAt?_pattern hlast (d.ending ++ after) offset
      rw [hkind] at hmatch
      have hlength : offset + (d.form.head ++ d.quoted).length + d.ending.length = offset + d.text.length := by
        simp only [Declaration.text, List.length_append, Nat.add_assoc]
      show κ.pattern.scanFrom last offset 0 ((d.form.head ++ d.quoted) ++ d.ending ++ after) = _
      rw [List.append_assoc (d.form.head ++ d.quoted), scanFrom_of_matchAt? hne hmatch rfl,
        κ.scanFrom_of_quiet (hending _), ← Cursor.lastOf_append, hlength, Item.matches, if_pos hkind]
      rfl
    · rw [Item.matches, if_neg hkind]
      exact κ.scanFrom_of_quiet (d.quiet hkind hstops)

/-- **A scan finds the statements of its kind.** -/
theorem Kind.scanFrom_source (κ : Kind) (items : List Item) {last : Option Char} (hlast : last.any isWord = false)
    (offset : Nat) : κ.pattern.scanFrom last offset 0 (source items) = matchesIn κ offset items := by
  have hend : ∀ {last : Option Char} {offset : Nat}, κ.pattern.scanFrom last offset 0 [] = [] := by
    intro last offset
    have hnone : ¬ Opens κ.keyword.toList last [] := by
      rintro ⟨-, b, ys, -, heq⟩
      simp at heq
    rw [scanFrom, if_pos rfl, κ.matchAt?_of_not_opens hnone]
    rfl
  induction items generalizing last offset with
  | nil => exact hend
  | cons i items ih =>
    cases items with
    | nil =>
      have hnil : ∀ x ∈ ([] : List Char).head?, x = '\n' := by simp
      have hitem := κ.scanFrom_item i hlast offset hnil
      rw [hend, List.append_nil] at hitem
      rw [source_singleton, hitem]
      rfl
    | cons j items =>
      have hlineFeed : ∀ {last : Option Char} {offset : Nat} {t : List Char},
          κ.pattern.scanFrom last offset 0 ('\n' :: t) = κ.pattern.scanFrom (some '\n') (offset + 1) 0 t :=
        scanFrom_of_eq_none
          (κ.matchAt?_of_not_opens (not_opens_of_gap κ.isWord_of_mem_keyword (by decide) κ.keyword_ne_nil))
      rw [source_cons_cons, κ.scanFrom_item i hlast offset (by simp), hlineFeed, ih (by decide)]
      rfl

/-! ## Order -/

/-- Imports are found in the order of the text. -/
theorem pairwise_all (content : List Char) : (all content).Pairwise fun i j => i.offset ≤ j.offset := by
  have hsorted : (all content).Pairwise fun i j => decide (i.offset ≤ j.offset) = true := by
    apply List.pairwise_mergeSort
    · intro i j l hij hjl
      rw [decide_eq_true_eq] at hij hjl ⊢
      exact Nat.le_trans hij hjl
    · intro i j
      rw [Bool.or_eq_true, decide_eq_true_eq, decide_eq_true_eq]
      exact Nat.le_total _ _
  exact hsorted.imp of_decide_eq_true

/-- What the two scans find are the imports of the statements, in some order. -/
theorem perm_importsIn (offset : Nat) (items : List Item) :
    ((matchesIn .statement offset items ++ matchesIn .reexport offset items).map ofMatch).Perm
      (importsIn offset items) := by
  induction items generalizing offset with
  | nil => exact .nil
  | cons i items ih =>
    have hrest := ih (offset + i.text.length + 1)
    cases i with
    | filler line => exact hrest
    | declaration d =>
      rw [List.map_append] at hrest ⊢
      cases hkind : d.form.kind with
      | statement =>
        rw [matchesIn, matchesIn, Item.matches, Item.matches, hkind]
        exact hrest.cons _
      | reexport =>
        rw [matchesIn, matchesIn, Item.matches, Item.matches, hkind]
        exact List.perm_middle.trans (hrest.cons _)

theorem le_offset_of_mem_importsIn {offset : Nat} {items : List Item} {i : Import} (h : i ∈ importsIn offset items) :
    offset ≤ i.offset := by
  induction items generalizing offset with
  | nil => cases h
  | cons j items ih =>
    rcases List.mem_append.mp h with h | h
    · obtain ⟨path, -, rfl⟩ := Option.map_eq_some_iff.mp (Option.mem_toList.mp h)
      exact Nat.le_refl _
    · have := ih h
      omega

theorem pairwise_importsIn (offset : Nat) (items : List Item) :
    (importsIn offset items).Pairwise fun i j => i.offset < j.offset := by
  induction items generalizing offset with
  | nil => exact .nil
  | cons i items ih =>
    refine List.pairwise_append.mpr ⟨?_, ih _, ?_⟩
    · cases i.path? with
      | none => exact .nil
      | some path => exact List.pairwise_singleton _ _
    · intro a ha b hb
      obtain ⟨path, -, rfl⟩ := Option.map_eq_some_iff.mp (Option.mem_toList.mp ha)
      have := le_offset_of_mem_importsIn hb
      show offset < b.offset
      omega

/-- **The imports of a text are those of its statements.** -/
theorem all_source (items : List Item) : all (source items) = importsIn 0 items := by
  have hscan : ∀ κ : Kind, κ.pattern.scan (source items) = matchesIn κ 0 items := fun κ =>
    κ.scanFrom_source items rfl 0
  have hperm : (all (source items)).Perm (importsIn 0 items) := by
    have hmatches := perm_importsIn 0 items
    rw [← hscan .statement, ← hscan .reexport] at hmatches
    exact (List.mergeSort_perm _ _).trans hmatches
  have hstrict := pairwise_importsIn 0 items
  have hnodup : ((importsIn 0 items).map (·.offset)).Nodup := List.pairwise_map.mpr (hstrict.imp Nat.ne_of_lt)
  apply List.Perm.eq_of_pairwise ?_ (pairwise_all _) (hstrict.imp Nat.le_of_lt) hperm
  intro i j hi hj hij hji
  exact List.inj_on_of_nodup_map hnodup (hperm.mem_iff.mp hi) hj (Nat.le_antisymm hij hji)

/-! ## Lines -/

/-- The lines of the imports of items that stand behind other text. -/
theorem map_lineAt_importsIn (before : List Char) (items : List Item) :
    (importsIn before.length items).map (fun i => (i.path, lineAt (before ++ source items) i.offset)) =
      entries (lineFeeds before + 1) items := by
  induction items generalizing before with
  | nil => rfl
  | cons i items ih =>
    have hhead : ∀ t, ((i.path?.map (⟨·, before.length⟩ : String → Import)).toList.map
        fun i => (i.path, lineAt (before ++ t) i.offset)) = (i.path?.map (·, lineFeeds before + 1)).toList := by
      intro t
      cases i.path? <;> simp [lineAt]
    cases items with
    | nil => simpa [importsIn, entries] using hhead _
    | cons j items =>
      have hsource : before ++ source (i :: j :: items) = (before ++ i.text ++ ['\n']) ++ source (j :: items) := by
        rw [source_cons_cons]
        simp
      have hlength : (before ++ i.text ++ ['\n']).length = before.length + i.text.length + 1 := by
        simp only [List.length_append, List.length_singleton]
      have hlines : lineFeeds (before ++ i.text ++ ['\n']) + 1 = lineFeeds before + 1 + lineFeeds i.text + 1 := by
        simp only [lineFeeds_append]
        show lineFeeds before + lineFeeds i.text + 1 + 1 = _
        omega
      have hrest := ih (before ++ i.text ++ ['\n'])
      rw [hlength, hlines, ← hsource] at hrest
      rw [importsIn, List.map_append, hhead, hrest]
      rfl

/-- **Every import is found, once and with the line on which its statement begins**, in the order of the statements. -/
theorem listing_source (items : List Item) : listing (source items) = entries 1 items := by
  rw [listing, all_source]
  exact map_lineAt_importsIn [] items

theorem plain_of_all {cs : List Char} (h : (cs.all fun c => !isQuote c && !isBlank c) = true) :
    ∀ c ∈ cs, isQuote c = false ∧ isBlank c = false := by
  simpa using h

/-- An import of two types, one of them under another name, on several lines. -/
def typesImport : Declaration where
  form := .clause true (.named
    { specifiers :=
        [{ before := ⟨"\n  ".toList, List.all_eq_true.mp (by decide)⟩
           name := ⟨"Shape".toList, by decide, List.all_eq_true.mp (by decide), by decide⟩
           alias? := some ⟨"Form".toList, by decide, List.all_eq_true.mp (by decide), by decide⟩
           behind := ⟨[], List.forall_mem_nil _⟩ },
         { before := ⟨"\n  ".toList, List.all_eq_true.mp (by decide)⟩
           name := ⟨"Size".toList, by decide, List.all_eq_true.mp (by decide), by decide⟩
           alias? := none
           behind := ⟨[], List.forall_mem_nil _⟩ }]
      lastComma? := some ⟨"\n".toList, List.all_eq_true.mp (by decide)⟩ })
  quote := '\''
  isQuote_quote := by decide
  path := ⟨"../shapes".toList, by decide, plain_of_all (by decide)⟩
  semicolon := true

/-- A line of other text. -/
def sizesLine : Filler where
  chars := "const sizes = [1, 2]".toList
  oneLine := by decide
  noImport := by decide
  noExport := by decide

/-- A re-export of a whole module under a name. -/
def viewsReexport : Declaration where
  form := .reexportAll (some ⟨"views".toList, by decide, List.all_eq_true.mp (by decide), by decide⟩)
  quote := '"'
  isQuote_quote := by decide
  path := ⟨"./views".toList, by decide, plain_of_all (by decide)⟩
  semicolon := false

/-- The re-export stands behind an import of four lines and a line of other text. -/
theorem listing_source_types :
    listing ("import type \x7b\n  Shape as Form,\n  Size,\n\x7d from '../shapes';\n".toList ++
        "const sizes = [1, 2]\nexport * as views from \"./views\"".toList) =
      [("../shapes", 1), ("./views", 6)] := by
  have htext : source [.declaration typesImport, .filler sizesLine, .declaration viewsReexport] =
      "import type \x7b\n  Shape as Form,\n  Size,\n\x7d from '../shapes';\n".toList ++
        "const sizes = [1, 2]\nexport * as views from \"./views\"".toList := by
    decide
  rw [← htext, listing_source]
  decide

end Conformance.Import
