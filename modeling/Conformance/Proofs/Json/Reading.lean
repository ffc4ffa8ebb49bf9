import Conformance.Proofs.Json.Reader

/-!
# Reading JSON texts

The reader gets back the tree of a value from the text of the value, in any layout (`Json.read?_render`): the value is
put behind those that are there already (`Json.run_chars`). So values of one text have one tree (`Json.tree_eq`). A tree
has everything of its value but which floating-point number is written by a numeral.
-/

namespace Conformance.Json

/-! ## The tree of a value -/

mutual

/-- What a value's text tells of the value. -/
def tree : Json → Tree
  | null => .word "null"
  | bool b => .word (if b then "true" else "false")
  | int n => .word (toString n)
  | float x => .word (Decimal.floatText specialNames x)
  | text s => .text s
  | array xs => .array (trees xs)
  | object ms => .object (memberTrees ms)

def trees : List Json → List Tree
  | [] => []
  | x :: xs => tree x :: trees xs

def memberTrees : List (String × Json) → List (String × Tree)
  | [] => []
  | (k, x) :: ms => (k, tree x) :: memberTrees ms

end

theorem trees_eq_map (xs : List Json) : trees xs = xs.map tree := by
  induction xs with
  | nil => rfl
  | cons x xs ih => rw [trees, ih, List.map_cons]

theorem memberTrees_eq_map (ms : List (String × Json)) : memberTrees ms = ms.map fun m => (m.1, m.2.tree) := by
  induction ms with
  | nil => rfl
  | cons m ms ih => rw [memberTrees, ih, List.map_cons]

namespace Reader

/-! ## Words -/

theorem isWord_repr (n : Int) : IsWord n.repr.toList := by
  have hall : delimiters.all (fun c => !c.isDigit && c != '-') = true := by decide
  refine ⟨Text.repr_ne_nil n, fun c hmem hc => ?_⟩
  obtain ⟨hdigit, hsign⟩ : c.isDigit = false ∧ c ≠ '-' := by simpa using List.all_eq_true.mp hall c hc
  exact Text.notMem_repr hdigit hsign n hmem

theorem isWord_floatText (x : Float) : IsWord (Decimal.floatText specialNames x).toList := by
  let others : List Char := ['.', 'e', '+', '-'] ++ specialNames.infinity.toList ++ specialNames.notANumber.toList
  have hall : delimiters.all (fun c => !c.isDigit && !others.contains c) = true := by decide +kernel
  refine ⟨Text.floatText_ne_nil (by decide) (by decide) x, fun c hmem hc => ?_⟩
  obtain ⟨hdigit, hother⟩ : c.isDigit = false ∧ c ∉ others := by simpa using List.all_eq_true.mp hall c hc
  rw [List.mem_append, List.mem_append, not_or, not_or] at hother
  obtain ⟨⟨hmark, hinfinity⟩, hname⟩ := hother
  exact Text.notMem_floatText hdigit hmark hinfinity hname x hmem

/-! ## What stands between values -/

theorem endsWord_lineBreak {l : Layout} {depth : Nat} {rest : List Char} (h : EndsWord rest) :
    EndsWord (lineBreak l depth ++ rest) := by
  rw [lineBreak]
  split
  · exact endsWord_cons (by decide) _
  · exact h

theorem endsWord_elementChars {l : Layout} {depth : Nat} {rest : List Char} (xs : List Json) (h : EndsWord rest) :
    EndsWord (elementChars l depth xs ++ rest) := by
  cases xs with
  | nil => exact h
  | cons x xs => exact endsWord_cons (by decide) _

theorem endsWord_memberChars {l : Layout} {depth : Nat} {rest : List Char} (ms : List (String × Json))
    (h : EndsWord rest) : EndsWord (memberChars l depth ms ++ rest) := by
  cases ms with
  | nil => exact h
  | cons m ms => exact endsWord_cons (by decide) _

variable {frame : Frame} {outer : List Frame}

theorem run_blanks (n : Nat) :
    run ⟨frame, outer, .between⟩ (List.replicate n ' ') = some ⟨frame, outer, .between⟩ := by
  induction n with
  | zero => rfl
  | succ n ih => exact ih

theorem run_comma (rest : List Char) :
    run ⟨frame, outer, .between⟩ (',' :: rest) = run ⟨frame, outer, .between⟩ rest := rfl

theorem run_lineBreak (l : Layout) (depth : Nat) (rest : List Char) :
    run ⟨frame, outer, .between⟩ (lineBreak l depth ++ rest) = run ⟨frame, outer, .between⟩ rest := by
  have hbreak : run ⟨frame, outer, .between⟩ (lineBreak l depth) = some ⟨frame, outer, .between⟩ := by
    rw [lineBreak]
    split
    · exact run_blanks (2 * depth)
    · rfl
  rw [run_append, hbreak, Option.bind_some]

/-- A key waits for its value. -/
theorem run_keyText (l : Layout) (members : List (String × Tree)) (k : String) (rest : List Char) :
    run ⟨.object members none, outer, .between⟩ (keyText l k ++ rest) =
      run ⟨.object members (some k), outer, .between⟩ rest := by
  have hkey : run ⟨.object members none, outer, .between⟩ (keyText l k) =
      some ⟨.object members (some k), outer, .between⟩ := by
    rw [keyText, run_append, run_stringText]
    cases l.indented <;> rfl
  rw [run_append, hkey, Option.bind_some]

/-! ## Arrays and objects -/

theorem run_openArray (rest : List Char) :
    run ⟨frame, outer, .between⟩ ('[' :: rest) = run ⟨.array [], frame :: outer, .between⟩ rest := rfl

theorem run_closeArray (elements : List Tree) (rest : List Char) :
    run ⟨.array elements, frame :: outer, .between⟩ (']' :: rest) =
      (add? ⟨frame, outer, .between⟩ (.array elements)).bind (·.run rest) := rfl

theorem run_openObject (rest : List Char) :
    run ⟨frame, outer, .between⟩ ('{' :: rest) = run ⟨.object [] none, frame :: outer, .between⟩ rest := rfl

theorem run_closeObject (members : List (String × Tree)) (rest : List Char) :
    run ⟨.object members none, frame :: outer, .between⟩ ('}' :: rest) =
      (add? ⟨frame, outer, .between⟩ (.object members)).bind (·.run rest) := rfl

theorem add?_array (elements : List Tree) (t : Tree) :
    add? ⟨.array elements, outer, .between⟩ t = some ⟨.array (elements ++ [t]), outer, .between⟩ := rfl

theorem add?_object (members : List (String × Tree)) (k : String) (t : Tree) :
    add? ⟨.object members (some k), outer, .between⟩ t = some ⟨.object (members ++ [(k, t)]) none, outer, .between⟩ :=
  rfl

end Reader

/-! ## Values -/

open Reader

mutual

/-- **A value is read from its text**, behind which a delimiter stands. -/
theorem run_chars (l : Layout) (depth : Nat) (frame : Frame) (outer : List Frame) {rest : List Char}
    (hrest : EndsWord rest) : (j : Json) →
    run ⟨frame, outer, .between⟩ (chars l depth j ++ rest) =
      (add? ⟨frame, outer, .between⟩ j.tree).bind (·.run rest)
  | null => by
    rw [chars, tree]
    exact run_word (by decide) hrest
  | bool b => by
    have hword : IsWord (if b then "true" else "false").toList := by cases b <;> decide
    rw [chars, tree]
    exact run_word hword hrest
  | int n => by
    rw [chars, tree]
    exact run_word (isWord_repr n) hrest
  | float x => by
    rw [chars, tree]
    exact run_word (isWord_floatText x) hrest
  | text s => by rw [chars, run_append, run_stringText, tree]
  | array [] => rfl
  | array (x :: xs) => by
    have hclose : EndsWord (lineBreak l depth ++ ']' :: rest) := endsWord_lineBreak (endsWord_cons (by decide) _)
    simp only [chars, List.cons_append, List.append_assoc, List.nil_append]
    rw [run_openArray, run_lineBreak, run_chars l _ _ _ (endsWord_elementChars xs hclose) x, add?_array,
      Option.bind_some, run_elementChars l _ _ _ hclose xs, run_lineBreak, run_closeArray]
    rfl
  | object [] => rfl
  | object ((k, x) :: ms) => by
    have hclose : EndsWord (lineBreak l depth ++ '}' :: rest) := endsWord_lineBreak (endsWord_cons (by decide) _)
    simp only [chars, List.cons_append, List.append_assoc, List.nil_append]
    rw [run_openObject, run_lineBreak, run_keyText, run_chars l _ _ _ (endsWord_memberChars ms hclose) x, add?_object,
      Option.bind_some, run_memberChars l _ _ _ hclose ms, run_lineBreak, run_closeObject]
    rfl

/-- Elements are put behind those that are there. -/
theorem run_elementChars (l : Layout) (depth : Nat) (elements : List Tree) (outer : List Frame) {rest : List Char}
    (hrest : EndsWord rest) : (xs : List Json) →
    run ⟨.array elements, outer, .between⟩ (elementChars l depth xs ++ rest) =
      run ⟨.array (elements ++ trees xs), outer, .between⟩ rest
  | [] => by rw [elementChars, trees, List.nil_append, List.append_nil]
  | x :: xs => by
    simp only [elementChars, List.cons_append, List.append_assoc]
    rw [run_comma, run_lineBreak, run_chars l _ _ _ (endsWord_elementChars xs hrest) x, add?_array, Option.bind_some,
      run_elementChars l _ _ _ hrest xs, trees, List.append_assoc, List.singleton_append]

/-- Members are put behind those that are there. -/
theorem run_memberChars (l : Layout) (depth : Nat) (members : List (String × Tree)) (outer : List Frame)
    {rest : List Char} (hrest : EndsWord rest) : (ms : List (String × Json)) →
    run ⟨.object members none, outer, .between⟩ (memberChars l depth ms ++ rest) =
      run ⟨.object (members ++ memberTrees ms) none, outer, .between⟩ rest
  | [] => by rw [memberChars, memberTrees, List.nil_append, List.append_nil]
  | (k, x) :: ms => by
    simp only [memberChars, List.cons_append, List.append_assoc]
    rw [run_comma, run_lineBreak, run_keyText, run_chars l _ _ _ (endsWord_memberChars ms hrest) x, add?_object,
      Option.bind_some, run_memberChars l _ _ _ hrest ms, memberTrees, List.append_assoc, List.singleton_append]

end

variable {l : Layout}

/-- **The reader gets back the tree of a value.** -/
theorem read?_render (j : Json) : read? (j.render l).toList = some j.tree := by
  rw [read?, render, String.toList_ofList, run_chars l 0 _ _ (endsWord_cons (by decide) _), add?_array]
  rfl

/-- Blanks may be left out, and the two halves of a pair are one character. -/
example : read? "[\"\\ud83d\\ude00\\n\",-1]".toList = some (.array [.text "😀\n", .word "-1"]) := by rfl

/-- Values of one text have one tree. -/
theorem tree_eq {j k : Json} (h : j.render l = k.render l) : j.tree = k.tree := by
  have hread : some j.tree = some k.tree := by rw [← read?_render (l := l), h, read?_render]
  exact Option.some.inj hread

end Conformance.Json
