import Conformance.Proofs.Export.Line

/-!
# The exports that are found

A scan goes through a text line by line. At the start of a line it finds the declaration of the line, if there is one,
and the rest of the line is passed over, whatever it holds (`scanFrom_line`). So what is found are the declarations of
the lines, one for each, in order and with their numbers (`listing_joined`).
-/

namespace Conformance.Export

open Pattern Text

/-! ## One line -/

variable {last : Option Char} {offset : Nat} {t after : List Char}

/-- Text in a line is passed over if nothing is found at its beginning. -/
theorem scanFrom_of_first
    (hfirst : t ≠ [] → ∀ offset, declaration.matchAt? ⟨last, t ++ after, offset, none⟩ = none)
    (ht : '\n' ∉ t) :
    declaration.scanFrom last offset 0 (t ++ after) =
      declaration.scanFrom (Cursor.lastOf last t) (offset + t.length) 0 after := by
  apply scanFrom_of_nowhere
  rintro u x v rfl offset
  by_cases hu : u = []
  · subst hu
    exact hfirst (List.cons_ne_nil x v) offset
  · obtain ⟨y, hy, hlast⟩ := Cursor.exists_mem_lastOf hu last
    have hne : y ≠ '\n' := by
      rintro rfl
      exact ht (List.mem_append_left _ hy)
    refine matchAt?_eq_none_within_line ?_
    rw [atLineStart, hlast]
    simpa using hne

/-- The matches that are found in a line that begins at the offset. -/
def Line.matches (offset : Nat) : Line → List Match
  | filler _ => []
  | declaration line => [line.matchFrom offset]

/-- **A line is scanned as a whole.** -/
theorem scanFrom_line (l : Line) (hlast : last.all (· == '\n') = true) (hafter : ∀ x ∈ after.head?, x = '\n') :
    declaration.scanFrom last offset 0 (l.text ++ after) =
      l.matches offset ++ declaration.scanFrom (Cursor.lastOf last l.text) (offset + l.text.length) 0 after := by
  cases l with
  | filler line =>
    exact scanFrom_of_first (fun _ _ => matchAt?_eq_none_of_line line.chars after line.noExport hafter rfl) line.oneLine
  | declaration d =>
    have hstops : StopsWord (d.rest ++ after) := by
      cases hrest : d.rest with
      | nil =>
        intro x hx
        rw [hafter x hx]
        decide
      | cons y ys => exact stopsWord_cons (d.stopsWord_rest y (by rw [hrest]; rfl))
    have hne : d.head ++ d.name ≠ [] := List.append_ne_nil_of_right_ne_nil _ d.name_ne_nil
    have hmatch : Export.declaration.matchAt? ⟨last, d.head ++ d.name ++ (d.rest ++ after), offset, none⟩ =
        some (d.matchFrom offset) :=
      d.matchAt?_declaration hlast (List.append_assoc ..) hstops
    -- The match ends with the name, so the scan goes on within the line.
    have hbehind : (Cursor.lastOf last (d.head ++ d.name)).all (· == '\n') = false := by
      obtain ⟨x, hx, hend⟩ := Cursor.exists_mem_lastOf d.name_ne_nil (Cursor.lastOf last d.head)
      have hne : x ≠ '\n' := by
        rintro rfl
        exact absurd (d.isWord_name '\n' hx) (by decide)
      rw [Cursor.lastOf_append, hend]
      simpa using hne
    show Export.declaration.scanFrom last offset 0 (d.head ++ d.name ++ d.rest ++ after) = _
    rw [List.append_assoc (d.head ++ d.name), scanFrom_of_matchAt? hne hmatch rfl,
      scanFrom_of_first (fun _ _ => matchAt?_eq_none_within_line hbehind) d.oneLine_rest, ← Cursor.lastOf_append,
      Nat.add_assoc, ← List.length_append]
    rfl

theorem scanFrom_nil : declaration.scanFrom last offset 0 [] = [] := by
  rw [scanFrom, if_pos rfl, matchAt?_eq_none_of_line [] [] (by decide) (by simp) rfl]
  rfl

theorem scanFrom_lineFeed : declaration.scanFrom last offset 0 ('\n' :: t) =
    declaration.scanFrom (some '\n') (offset + 1) 0 t :=
  scanFrom_of_eq_none (matchAt?_eq_none_of_line [] ('\n' :: t) (by decide) (by simp) rfl)

/-! ## All lines -/

theorem joined_singleton (l : Line) : joined [l] = l.text := by simp [joined]

theorem joined_cons_cons (l l' : Line) (lines : List Line) :
    joined (l :: l' :: lines) = l.text ++ '\n' :: joined (l' :: lines) := by
  simp [joined, List.intercalate_cons_cons]

theorem Line.lineFeeds_text (l : Line) : lineFeeds l.text = 0 := by
  apply List.count_eq_zero.mpr
  cases l with
  | filler line => exact line.oneLine
  | declaration d =>
    have hword : '\n' ∉ d.name := fun hmem => absurd (d.isWord_name '\n' hmem) (by decide)
    have hindent : '\n' ∉ d.indent := fun hmem => absurd (d.isIndent_indent '\n' hmem) (by decide)
    simp [Line.text, Declaration.text, Declaration.head, hword, hindent, d.notMem_words, d.oneLine_gap, d.oneLine_rest]

/-- What a match in a line exports. -/
theorem Line.map_matches (l : Line) (before text : List Char) :
    (l.matches before.length).map (fun m => ((ofMatch m).name, lineAt (before ++ text) (ofMatch m).offset)) =
      (l.name?.map (·, lineFeeds before + 1)).toList := by
  cases l with
  | filler line => rfl
  | declaration d =>
    have hline : lineAt (before ++ text) before.length = lineFeeds before + 1 := by
      rw [lineAt, List.take_left]
    exact congrArg (fun line => [(String.ofList d.name, line)]) hline

/-- What is found in lines that stand behind other lines. -/
theorem map_scanFrom_joined (before : List Char) (lines : List Line) (hlast : last.all (· == '\n') = true) :
    (declaration.scanFrom last before.length 0 (joined lines)).map
        (fun m => ((ofMatch m).name, lineAt (before ++ joined lines) (ofMatch m).offset)) =
      entries (lineFeeds before + 1) lines := by
  induction lines generalizing before last with
  | nil =>
    have hnil : joined [] = [] := rfl
    rw [hnil, scanFrom_nil]
    rfl
  | cons l lines ih =>
    cases lines with
    | nil =>
      have hline : declaration.scanFrom last before.length 0 (l.text ++ []) = _ := scanFrom_line l hlast (by simp)
      rw [List.append_nil, scanFrom_nil, List.append_nil] at hline
      rw [joined_singleton, hline, l.map_matches]
      exact (List.append_nil _).symm
    | cons l' lines =>
      have hbefore : before ++ joined (l :: l' :: lines) = (before ++ l.text ++ ['\n']) ++ joined (l' :: lines) := by
        rw [joined_cons_cons]
        simp only [List.append_assoc, List.singleton_append]
      have hlength : (before ++ l.text ++ ['\n']).length = before.length + l.text.length + 1 := by
        simp only [List.length_append, List.length_singleton]
      have hnumber : lineFeeds (before ++ l.text ++ ['\n']) + 1 = lineFeeds before + 1 + 1 := by
        rw [lineFeeds_append, lineFeeds_append, l.lineFeeds_text]
        rfl
      have hlineFeed : (some '\n').all (· == '\n') = true := rfl
      have hrest := ih (before ++ l.text ++ ['\n']) hlineFeed
      rw [hlength, hnumber, ← hbefore] at hrest
      rw [entries, ← hrest, ← l.map_matches before (joined (l :: l' :: lines)), ← List.map_append]
      congr 1
      rw [joined_cons_cons, scanFrom_line l hlast (by simp), scanFrom_lineFeed]

/-- **Every export is found, once and with the number of its line**, in the order of the lines, and nothing else is,
whatever stands in a line behind the name or in a line that does not begin with `export`. -/
theorem listing_joined (lines : List Line) : listing (joined lines) = entries 1 lines := by
  rw [listing, all, List.map_map]
  exact map_scanFrom_joined [] lines rfl

/-- The default export of a generator that waits. -/
def loadLine : Declaration where
  indent := []
  isDefault := true
  isAsync := true
  keyword := "function"
  gap := "* ".toList
  name := "load".toList
  rest := "() \x7b".toList
  isIndent_indent := List.forall_mem_nil _
  keyword_mem := by decide
  gap_ne_nil := by decide
  isGap_gap := List.all_eq_true.mp (by decide)
  oneLine_gap := by decide
  name_ne_nil := by decide
  isWord_name := List.all_eq_true.mp (by decide)
  stopsWord_rest := stopsWord_cons (by decide)
  oneLine_rest := by decide

/-- A line that exports something in its comment only. -/
def commentLine : Filler where
  chars := "  yield 1 // export const other = 0".toList
  oneLine := by decide
  noExport := by decide

/-- An indented export of a private name. -/
def countLine : Declaration where
  indent := "\t".toList
  isDefault := false
  isAsync := false
  keyword := "let"
  gap := " ".toList
  name := "_count".toList
  rest := "=1".toList
  isIndent_indent := List.all_eq_true.mp (by decide)
  keyword_mem := by decide
  gap_ne_nil := by decide
  isGap_gap := List.all_eq_true.mp (by decide)
  oneLine_gap := by decide
  name_ne_nil := by decide
  isWord_name := List.all_eq_true.mp (by decide)
  stopsWord_rest := stopsWord_cons (by decide)
  oneLine_rest := by decide

/-- An export in the comment of another line is passed over. -/
theorem listing_joined_generator :
    listing ("export default async function* load() \x7b\n".toList ++
        "  yield 1 // export const other = 0\n\texport let _count=1".toList) =
      [("load", 1), ("_count", 3)] := by
  have htext : joined [.declaration loadLine, .filler commentLine, .declaration countLine] =
      "export default async function* load() \x7b\n".toList ++
        "  yield 1 // export const other = 0\n\texport let _count=1".toList := by
    decide
  rw [← htext, listing_joined]
  decide

end Conformance.Export
